import KernelEngine.Net.IoUring
import Mathlib.Data.List.Nodup

namespace KernelEngine.Attribution
open Rust File Net Runs

def tag (e : Entry) : UInt64 := e.sqe.userData

/-- No two operations in flight carry the same `user_data`. -/
def Distinct (s : Uring) : Prop := (s.ring.inFlight.map tag).Nodup

/-- Every `submit_*` call succeeds. -/
def Succeeds : UringIo → Bool
  | .submit _ (.ok _) (.ok _) => true
  | .submit _ _ _ => false
  | _ => true

/-- A session whose `submit_*` calls succeed. -/
def step (s : Uring) (io : UringIo) : Option Uring := if Succeeds io then s.step io else none

/-- An operation is submitted where no operation on its descriptor, for a `sendfile` the
one written to, is in flight. -/
def Separate (s : Uring) : UringIo → Prop
  | .submit request _ _ => ∀ e ∈ s.ring.inFlight, e.sqe.opcode.descriptor ≠ request.descriptor
  | _ => True

/-- What is seen of a completed operation. -/
def pair (c : Entry × Int32) : UInt64 × Int32 := (tag c.1, c.2)

/-- What a `wait_for_completion` returned. -/
def returned : UringIo → List (UInt64 × Int32)
  | .reap completions => completions
  | _ => []

/-- The pairs returned are results of the operations completed so far, in that order,
and among those with one tag the results come in the order of submission. -/
def Attributable (t : List UringIo) (s : Uring) : Prop :=
  t.flatMap returned <+: s.ring.posted.map pair ∧
    ∀ u, (s.ring.posted.map Prod.fst).filter (tag · = u) <+: s.ring.handed.filter (tag · = u)

structure Invariant (s : Uring) : Prop where
  idle : s.ring.queue = []
  tagged : ∀ e ∈ s.ring.inFlight, tag e = asU64 e.sqe.opcode.descriptor
  distinct : Distinct s

/-- The books of a session: completions are returned or still unread, and the operations
with one tag are completed in the order of submission. -/
structure Ordered (t : List UringIo) (s : Uring) : Prop where
  reported : s.ring.posted.map pair = t.flatMap returned ++ s.ring.unread.map pair
  order : ∀ u, s.ring.handed.filter (tag · = u) =
    (s.ring.posted.map Prod.fst).filter (tag · = u) ++ s.ring.inFlight.filter (tag · = u)

section Steps

variable {s s' : Uring} {io : UringIo} {t : List UringIo}

theorem step_iff : step s io = some s' ↔ Succeeds io = true ∧ s.step io = some s' :=
  Option.ite_none_right_eq_some

theorem invariant_start : Invariant .start :=
  ⟨rfl, by simp [Uring.start, Ring.empty], List.nodup_nil⟩

/-- A new operation keeps the tags apart exactly when its descriptor is free. -/
theorem distinct_submit_iff (h : Invariant s) (request : Request) :
    ((s.ring.inFlight ++ [request.entry s.calls]).map tag).Nodup ↔
      ∀ e' ∈ s.ring.inFlight, e'.sqe.opcode.descriptor ≠ request.descriptor := by
  rw [List.map_append, List.map_singleton, ← List.concat_eq_append, List.nodup_concat]
  have hmem : tag (request.entry s.calls) ∈ s.ring.inFlight.map tag ↔
      ∃ e' ∈ s.ring.inFlight, e'.sqe.opcode.descriptor = request.descriptor := by
    rw [List.mem_map]
    refine exists_congr fun e' => and_congr_right fun he' => ?_
    rw [h.tagged e' he', tag, Request.entry, asU64_injective.eq_iff]
  rw [hmem, and_iff_left (show (s.ring.inFlight.map tag).Nodup from h.distinct), not_exists]
  exact forall_congr' fun e' => not_and

theorem invariant_step (h : Invariant s) (hs : step s io = some s') (hsep : Separate s io) :
    Invariant s' := by
  obtain ⟨hok, hs⟩ := step_iff.mp hs
  cases Uring.step_cases hs with
  | notPushed | notSubmitted => cases hok
  | submitted request =>
    rw [Ring.submit_push_of_idle h.idle]
    refine ⟨h.idle, ?_, (distinct_submit_iff h request).mpr hsep⟩
    intro e' he'
    rw [List.mem_append, List.mem_singleton] at he'
    obtain hold | rfl := he'
    · exact h.tagged e' hold
    · exact congrArg asU64 request.opcode_descriptor.symm
  | batch | waits =>
    rw [Ring.submit_of_idle h.idle]
    exact ⟨h.idle, h.tagged, h.distinct⟩
  | batchFailed | waitFailed => exact h
  | completed e he result =>
    refine ⟨h.idle, fun e' he' => h.tagged e' (List.mem_of_mem_erase he'), ?_⟩
    exact h.distinct.sublist (List.erase_sublist.map tag)
  | reaped => exact ⟨h.idle, h.tagged, h.distinct⟩

theorem separate_of_distinct (h : Invariant s) (hs : step s io = some s') (hd : Distinct s') :
    Separate s io := by
  obtain ⟨hok, hs⟩ := step_iff.mp hs
  cases Uring.step_cases hs with
  | notPushed | notSubmitted => cases hok
  | submitted request =>
    rw [Ring.submit_push_of_idle h.idle] at hd
    exact (distinct_submit_iff h request).mp hd
  | _ => trivial

/-- Taking an operation out of the flight takes it to the front of those with its tag. -/
theorem filter_erase {l : List Entry} {e : Entry} (hl : (l.map tag).Nodup) (he : e ∈ l)
    (u : UInt64) :
    [e].filter (tag · = u) ++ (l.erase e).filter (tag · = u) = l.filter (tag · = u) := by
  induction l with
  | nil => cases he
  | cons a l ih =>
    obtain ⟨ha, hl⟩ := List.nodup_cons.mp hl
    obtain rfl | he := List.mem_cons.mp he
    · rw [List.erase_cons_head, ← List.filter_append, List.singleton_append]
    · have hne : tag a ≠ tag e := fun heq => ha (heq ▸ List.mem_map_of_mem he)
      rw [List.erase_cons_tail (by simpa using fun heq => hne (congrArg tag heq))]
      by_cases hu : tag a = u
      · -- the only one with this tag is `a`, so nothing of it is taken out
        have he' : [e].filter (tag · = u) = [] := by simp [← hu, hne.symm]
        have hrest := ih hl he
        rw [he', List.nil_append] at hrest
        rw [he', List.nil_append]
        simp only [List.filter_cons, hu, decide_true, if_true, hrest]
      · simpa only [List.filter_cons, hu, decide_false, Bool.false_eq_true, if_false] using ih hl he

theorem ordered_step (h : Invariant s) (ho : Ordered t s) (hs : step s io = some s') :
    Ordered (t ++ [io]) s' := by
  obtain ⟨hok, hs⟩ := step_iff.mp hs
  cases Uring.step_cases hs with
  | notPushed | notSubmitted => cases hok
  | submitted request =>
    rw [Ring.submit_push_of_idle h.idle]
    refine ⟨by simpa [returned] using ho.reported, fun u => ?_⟩
    rw [List.filter_append, ho.order u, List.filter_append, List.append_assoc]
  | batch | waits =>
    rw [Ring.submit_of_idle h.idle]
    exact ⟨by simpa [returned] using ho.reported, ho.order⟩
  | batchFailed | waitFailed => exact ⟨by simpa [returned] using ho.reported, ho.order⟩
  | completed e he result =>
    constructor
    · simp [Ring.complete, returned, ho.reported]
    · intro u
      simp only [Ring.complete, List.map_append, List.filter_append, List.append_assoc, ho.order u]
      rw [← filter_erase h.distinct he u]
      rfl
  | reaped =>
    have hread : s.ring.completions = s.ring.unread.map pair := rfl
    refine ⟨?_, ho.order⟩
    simp [returned, hread, ho.reported]

theorem Ordered.attributable (h : Ordered t s) : Attributable t s :=
  ⟨⟨_, h.reported.symm⟩, fun u => ⟨_, (h.order u).symm⟩⟩

end Steps

/-- In a session whose calls succeed the operations in flight have tags of their own
exactly as long as each is submitted on a descriptor without one, and then every result
returned belongs to one operation. -/
theorem distinct_iff_separate (t : List UringIo) :
    (Along step (fun _ _ s => Distinct s) .start t ↔
      Along step (fun s io _ => Separate s io) .start t) ∧
    (Along step (fun s io _ => Separate s io) .start t →
      ∀ s, run step .start t = some s → Attributable t s) := by
  constructor
  · refine along_iff_of_exact (I := Invariant) ?_ ?_ invariant_start
    · intro s io s' h hs hsep
      have h' := invariant_step h hs hsep
      exact ⟨h', h'.distinct⟩
    · intro s io s' h hs hd
      exact separate_of_distinct h hs hd
  · intro hsep s hrun
    refine (run_history (I := fun t s => Invariant s ∧ Ordered t s) ?_ ?_ hsep hrun).2.attributable
    · intro t s io s' h hs hsep
      exact ⟨invariant_step h.1 hs hsep, ordered_step h.1 h.2 hs⟩
    · exact ⟨invariant_start, ⟨rfl, fun _ => rfl⟩⟩

/-- Two reads of one file at different offsets. -/
def reads : List UringIo :=
  [.submit (.read 5 4096 512 0) (.ok ()) (.ok ()), .submit (.read 5 8192 512 512) (.ok ()) (.ok ())]

def firstRead : Entry := ⟨0, .read 5 4096 512 0, 5⟩

def secondRead : Entry := ⟨1, .read 5 8192 512 512, 5⟩

/-- `wait_for_completion` returns the same pairs whichever read brought which result. -/
theorem reads_indistinguishable :
    (∃ s, run step .start (reads ++ [.complete firstRead 512, .complete secondRead 100,
      .wait (.ok ()), .reap [(5, 512), (5, 100)]]) = some s ∧
        s.ring.posted = [(firstRead, 512), (secondRead, 100)]) ∧
    (∃ s, run step .start (reads ++ [.complete secondRead 512, .complete firstRead 100,
      .wait (.ok ()), .reap [(5, 512), (5, 100)]]) = some s ∧
        s.ring.posted = [(secondRead, 512), (firstRead, 100)]) ∧
    ¬ Along step (fun _ _ s => Distinct s) .start reads := by
  refine ⟨⟨_, rfl, rfl⟩, ⟨_, rfl, rfl⟩, fun hdistinct => ?_⟩
  have hsep := ((distinct_iff_separate reads).1.mp hdistinct _ rfl).2 _ rfl
  exact hsep.1 firstRead (by decide) rfl

end KernelEngine.Attribution
