import KernelEngine.Lib.Runs
import KernelEngine.Sys.CpuAffinity
import Mathlib.Data.Finset.Card

namespace KernelEngine.Placement
open Rust Sys Runs

/-- What decides where the threads run: `main` pins itself, `start` spawns the workers
one by one, and each worker pins itself at some time after that. A pin comes with the
kernel's answer. -/
inductive PinIo where
  | pinMain (accepted : Bool)
  | spawn
  | pinWorker (worker : ℕ) (accepted : Bool)

/-- The affinity mask of a worker, and whether its pinning call is behind it. -/
structure Worker where
  mask : Finset ℕ
  settled : Bool

structure Threads where
  mainMask : Finset ℕ
  mainSettled : Bool
  workers : List Worker

def start (allowed : Finset ℕ) : Threads := ⟨allowed, false, []⟩

/-- The kernel takes a pin on an allowed CPU, and may take or refuse any other. -/
def Answers (allowed : Finset ℕ) (core : ℕ) (accepted : Bool) : Prop :=
  core ∈ allowed → accepted = true

instance (allowed : Finset ℕ) (core : ℕ) (accepted : Bool) :
    Decidable (Answers allowed core accepted) := inferInstanceAs (Decidable (_ → _))

/-- The core `worker_thread` picks: `worker_id % num_cpus::get()`, counted in its own
mask. -/
def coreOf (worker : ℕ) (mask : Finset ℕ) : ℕ := worker % mask.card

/-- A new thread has the mask of `main`, which spawns it. -/
def step (allowed : Finset ℕ) (numWorkers : ℕ) (s : Threads) : PinIo → Option Threads
  | .pinMain accepted =>
    if s.mainSettled = false ∧ Answers allowed 0 accepted then
      some { s with mainMask := (pinToCores s.mainMask [0] accepted).1, mainSettled := true }
    else none
  | .spawn =>
    if s.mainSettled ∧ s.workers.length < numWorkers then
      some { s with workers := s.workers ++ [⟨s.mainMask, false⟩] }
    else none
  | .pinWorker worker accepted =>
    match s.workers[worker]? with
    | some ⟨mask, false⟩ =>
      let pinned := (pinToCores mask [coreOf worker mask] accepted).1
      if Answers allowed (coreOf worker mask) accepted then
        some { s with workers := s.workers.set worker ⟨pinned, true⟩ }
      else none
    | _ => none

/-- All workers are spawned and have made their pinning calls. -/
def Complete (numWorkers : ℕ) (s : Threads) : Prop :=
  s.mainSettled ∧ s.workers.length = numWorkers ∧ ∀ w ∈ s.workers, w.settled

/-- The number of workers pinned to a CPU. -/
def load (s : Threads) (core : ℕ) : ℕ := (s.workers.map Worker.mask).count {core}

/-- Every worker is pinned to an allowed CPU, and these share the workers evenly. -/
structure Placed (allowed : Finset ℕ) (s : Threads) : Prop where
  pinned : ∀ w ∈ s.workers, ∃ core ∈ allowed, w.mask = {core}
  even : ∀ c ∈ allowed, ∀ d ∈ allowed, load s c ≤ load s d + 1

/-- `main` sits on CPU 0, and with it every worker. -/
structure Together (s : Threads) : Prop where
  settled : s.mainSettled = true
  main : s.mainMask = {0}
  workers : ∀ w ∈ s.workers, w.mask = {0}

/-- `main` was refused CPU 0, and the workers that were not refused theirs are where
their numbers put them. -/
structure Apart (allowed : Finset ℕ) (t : List PinIo) (s : Threads) : Prop where
  settled : s.mainSettled = true
  away : 0 ∉ allowed
  main : s.mainMask = allowed
  refused : .pinMain true ∉ t
  workers : ∀ i w, s.workers[i]? = some w →
    (w.mask = allowed ∧ .pinWorker i true ∉ t) ∨
      (w.mask = {coreOf i allowed} ∧ w.settled = true ∧ .pinWorker i true ∈ t)
  spawned : ∀ i, .pinWorker i true ∈ t → i < s.workers.length

/-- The two ways the pin of `main` can end, and the time before it. -/
def Books (allowed : Finset ℕ) (t : List PinIo) (s : Threads) : Prop :=
  (s = start allowed ∧ t = []) ∨ (.pinMain true ∈ t ∧ Together s) ∨ Apart allowed t s

section Steps

variable {allowed : Finset ℕ} {numWorkers : ℕ} {t : List PinIo} {s s' : Threads} {io : PinIo}

/-- Everything one step can do. -/
inductive Step (allowed : Finset ℕ) (s : Threads) : PinIo → Threads → Prop
  | pinnedMain (h : s.mainSettled = false) :
      Step allowed s (.pinMain true) { s with mainMask := {0}, mainSettled := true }
  | refusedMain (h : s.mainSettled = false) (haway : 0 ∉ allowed) :
      Step allowed s (.pinMain false) { s with mainSettled := true }
  | spawned (h : s.mainSettled = true) :
      Step allowed s .spawn { s with workers := s.workers ++ [⟨s.mainMask, false⟩] }
  | pinnedWorker {i : ℕ} {mask : Finset ℕ} (h : s.workers[i]? = some ⟨mask, false⟩) :
      Step allowed s (.pinWorker i true)
        { s with workers := s.workers.set i ⟨{coreOf i mask}, true⟩ }
  | refusedWorker {i : ℕ} {mask : Finset ℕ} (h : s.workers[i]? = some ⟨mask, false⟩)
      (haway : coreOf i mask ∉ allowed) :
      Step allowed s (.pinWorker i false) { s with workers := s.workers.set i ⟨mask, true⟩ }

theorem step_cases (h : step allowed numWorkers s io = some s') : Step allowed s io s' := by
  cases io with
  | pinMain accepted =>
    obtain ⟨⟨hmain, hanswer⟩, hs⟩ := Option.ite_none_right_eq_some.mp h
    obtain rfl := Option.some.inj hs
    cases accepted with
    | true => exact .pinnedMain hmain
    | false => exact .refusedMain hmain fun hmem => Bool.false_ne_true (hanswer hmem)
  | spawn =>
    obtain ⟨⟨hmain, -⟩, hs⟩ := Option.ite_none_right_eq_some.mp h
    obtain rfl := Option.some.inj hs
    exact .spawned hmain
  | pinWorker i accepted =>
    simp only [step] at h
    split at h
    case h_1 mask hw =>
      obtain ⟨hanswer, hs⟩ := Option.ite_none_right_eq_some.mp h
      obtain rfl := Option.some.inj hs
      cases accepted with
      | true => exact .pinnedWorker hw
      | false => exact .refusedWorker hw fun hmem => Bool.false_ne_true (hanswer hmem)
    case h_2 => cases h

theorem coreOf_zero_mask (i : ℕ) : coreOf i {0} = 0 := by
  rw [coreOf, Finset.card_singleton, Nat.mod_one]

theorem Together.step (h : Together s) (hs : Step allowed s io s') : Together s' := by
  cases hs with
  | pinnedMain hmain | refusedMain hmain =>
    rw [h.settled] at hmain
    cases hmain
  | spawned =>
    refine ⟨h.settled, h.main, fun w hw => ?_⟩
    obtain hw | hw := List.mem_append.mp hw
    · exact h.workers w hw
    · rw [List.mem_singleton.mp hw]
      exact h.main
  | pinnedWorker hi =>
    refine ⟨h.settled, h.main, fun w hw => ?_⟩
    have hmask := h.workers _ (List.mem_of_getElem? hi)
    obtain hw | rfl := List.mem_or_eq_of_mem_set hw
    · exact h.workers w hw
    · dsimp only at hmask ⊢
      rw [hmask, coreOf_zero_mask]
  | refusedWorker hi =>
    refine ⟨h.settled, h.main, fun w hw => ?_⟩
    have hmask := h.workers _ (List.mem_of_getElem? hi)
    obtain hw | rfl := List.mem_or_eq_of_mem_set hw
    · exact h.workers w hw
    · exact hmask

/-- A worker that has not tried yet has the mask it inherited. -/
theorem Apart.inherited (h : Apart allowed t s) {i : ℕ} {mask : Finset ℕ}
    (hi : s.workers[i]? = some ⟨mask, false⟩) : mask = allowed ∧ .pinWorker i true ∉ t := by
  obtain hold | ⟨-, hsettled, -⟩ := h.workers i _ hi
  · exact hold
  · cases hsettled

theorem Apart.step (h : Apart allowed t s) (hs : Step allowed s io s') :
    Apart allowed (t ++ [io]) s' := by
  cases hs with
  | pinnedMain hmain | refusedMain hmain =>
    rw [h.settled] at hmain
    cases hmain
  | spawned =>
    refine ⟨h.settled, h.away, h.main, by simpa using h.refused, fun i w hi => ?_, fun i hi => ?_⟩
    · have hmem : .pinWorker i true ∈ t ++ [.spawn] ↔ .pinWorker i true ∈ t := by simp
      rw [hmem]
      obtain hlt | rfl : i < s.workers.length ∨ i = s.workers.length := by
        have hlen := (List.getElem?_eq_some_iff.mp hi).1
        rw [List.length_append, List.length_singleton] at hlen
        omega
      · rw [List.getElem?_append_left hlt] at hi
        exact h.workers i w hi
      · rw [List.getElem?_concat_length] at hi
        obtain rfl := Option.some.inj hi
        exact Or.inl ⟨h.main, fun hmem => Nat.lt_irrefl _ (h.spawned _ hmem)⟩
    · have hold := h.spawned i (by simpa using hi)
      rw [List.length_append]
      omega
  | @pinnedWorker j mask hj =>
    obtain ⟨rfl, hnot⟩ := h.inherited hj
    refine ⟨h.settled, h.away, h.main, by simpa using h.refused, fun i w hi => ?_, fun i hi => ?_⟩
    · rw [List.getElem?_set] at hi
      split_ifs at hi with hij hlt
      · subst hij
        obtain rfl := Option.some.inj hi
        exact Or.inr ⟨rfl, rfl, by simp⟩
      · have hmem : .pinWorker i true ∈ t ++ [.pinWorker j true] ↔ .pinWorker i true ∈ t := by
          simp [Ne.symm hij]
        rw [hmem]
        exact h.workers i w hi
    · rw [List.length_set]
      obtain hold | rfl : .pinWorker i true ∈ t ∨ i = j := by simpa using hi
      · exact h.spawned i hold
      · exact (List.getElem?_eq_some_iff.mp hj).1
  | @refusedWorker j mask hj haway =>
    obtain ⟨rfl, hnot⟩ := h.inherited hj
    refine ⟨h.settled, h.away, h.main, by simpa using h.refused, fun i w hi => ?_, fun i hi => ?_⟩
    · have hmem : .pinWorker i true ∈ t ++ [.pinWorker j false] ↔ .pinWorker i true ∈ t := by
        simp
      rw [hmem]
      rw [List.getElem?_set] at hi
      split_ifs at hi with hij hlt
      · subst hij
        obtain rfl := Option.some.inj hi
        exact Or.inl ⟨rfl, hnot⟩
      · exact h.workers i w hi
    · rw [List.length_set]
      exact h.spawned i (by simpa using hi)

theorem books_step (h : Books allowed t s) (hs : step allowed numWorkers s io = some s') :
    Books allowed (t ++ [io]) s' := by
  have hs := step_cases hs
  obtain ⟨rfl, rfl⟩ | ⟨hmain, h⟩ | h := h
  · cases hs with
    | pinnedMain => exact Or.inr (Or.inl ⟨by simp, rfl, rfl, by simp [start]⟩)
    | refusedMain _ haway =>
      exact Or.inr (Or.inr ⟨rfl, haway, rfl, by simp, by simp [start], by simp⟩)
    | spawned hsettled => cases hsettled
    | pinnedWorker hi | refusedWorker hi => cases hi
  · exact Or.inr (Or.inl ⟨List.mem_append_left _ hmain, h.step hs⟩)
  · exact Or.inr (Or.inr (h.step hs))

theorem books_run (hrun : run (step allowed numWorkers) (start allowed) t = some s) :
    Books allowed t s :=
  run_history_of_step (fun _ _ _ _ h hs => books_step h hs) (Or.inl ⟨rfl, rfl⟩) hrun

theorem Placed.of_eq_nil (h : s.workers = []) : Placed allowed s where
  pinned := by simp [h]
  even := by simp [load, h]

/-- One CPU shares its workers evenly with itself. -/
theorem Placed.of_card_eq_one (hcard : allowed.card = 1)
    (h : ∀ w ∈ s.workers, ∃ core ∈ allowed, w.mask = {core}) : Placed allowed s where
  pinned := h
  even c hc d hd := by
    rw [Finset.card_le_one.mp hcard.le c hc d hd]
    exact Nat.le_succ _

/-- With all workers on CPU 0 the others stand empty. -/
theorem Together.load_eq (h : Together s) (core : ℕ) :
    load s core = if core = 0 then s.workers.length else 0 := by
  have hmasks : s.workers.map Worker.mask = List.replicate s.workers.length {0} := by
    rw [List.eq_replicate_iff, List.length_map]
    simpa using h.workers
  rw [load, hmasks, List.count_replicate]
  simp only [beq_iff_eq, Finset.singleton_inj, @eq_comm _ core]

theorem Together.placed_iff (h : Together s) : Placed allowed s ↔
    s.workers = [] ∨ (0 ∈ allowed ∧ (allowed.card = 1 ∨ s.workers.length = 1)) := by
  constructor
  · intro hplaced
    refine or_iff_not_imp_left.mpr fun hne => ?_
    obtain ⟨w, hw⟩ := List.exists_mem_of_ne_nil _ hne
    obtain ⟨core, hcore, hmask⟩ := hplaced.pinned w hw
    obtain rfl : 0 = core := Finset.singleton_inj.mp ((h.workers w hw).symm.trans hmask)
    refine ⟨hcore, or_iff_not_imp_left.mpr fun hcard => ?_⟩
    have hpos := Finset.card_pos.mpr ⟨0, hcore⟩
    obtain ⟨d, hd, hd0⟩ := Finset.exists_mem_ne (show 1 < allowed.card by omega) 0
    have heven := hplaced.even 0 hcore d hd
    rw [h.load_eq, h.load_eq, if_pos rfl, if_neg hd0] at heven
    have hlen := List.length_pos_of_mem hw
    omega
  · rintro (hnil | ⟨hzero, hcard | hone⟩)
    · exact .of_eq_nil hnil
    · exact .of_card_eq_one hcard fun w hw => ⟨0, hzero, h.workers w hw⟩
    · refine ⟨fun w hw => ⟨0, hzero, h.workers w hw⟩, fun c _ d _ => ?_⟩
      rw [h.load_eq, h.load_eq, hone]
      split_ifs <;> omega

theorem Apart.placed_iff (h : Apart allowed t s) : Placed allowed s ↔
    s.workers = [] ∨ (allowed.card = 1 ∧ ∀ i, .pinWorker i true ∉ t) := by
  constructor
  · intro hplaced
    refine or_iff_not_imp_left.mpr fun hne => ?_
    -- a worker on CPU 0 is on none of the allowed ones
    have hzero (i : ℕ) (w : Worker) (hi : s.workers[i]? = some w) (hcore : coreOf i allowed = 0) :
        w.mask = allowed ∧ .pinWorker i true ∉ t := by
      refine (h.workers i w hi).resolve_right fun hpinned => ?_
      obtain ⟨core, hmem, hmask⟩ := hplaced.pinned w (List.mem_of_getElem? hi)
      rw [hpinned.1, hcore] at hmask
      exact h.away (Finset.singleton_inj.mp hmask ▸ hmem)
    obtain ⟨w, rest, hws⟩ := List.exists_cons_of_ne_nil hne
    obtain ⟨hmask, -⟩ := hzero 0 w (by rw [hws]; rfl) (Nat.zero_mod _)
    obtain ⟨core, -, hcore⟩ := hplaced.pinned w (by rw [hws]; exact List.mem_cons_self)
    have hcard : allowed.card = 1 := Finset.card_eq_one.mpr ⟨core, hmask ▸ hcore⟩
    refine ⟨hcard, fun i hi => ?_⟩
    have hlt := h.spawned i hi
    exact (hzero i s.workers[i] (List.getElem?_eq_getElem hlt)
      (by rw [coreOf, hcard, Nat.mod_one])).2 hi
  · rintro (hnil | ⟨hcard, hrefused⟩)
    · exact .of_eq_nil hnil
    · refine .of_card_eq_one hcard fun w hw => ?_
      obtain ⟨i, hi⟩ := List.mem_iff_getElem?.mp hw
      obtain ⟨hmask, -⟩ := (h.workers i w hi).resolve_right fun hpinned => hrefused i hpinned.2.2
      obtain ⟨core, rfl⟩ := Finset.card_eq_one.mp hcard
      exact ⟨core, Finset.mem_singleton_self core, hmask⟩

end Steps

/-- A pinning call that succeeds. -/
def Accepted : PinIo → Prop
  | .pinMain accepted => accepted = true
  | .spawn => False
  | .pinWorker _ accepted => accepted = true

/-- All workers end up where `main` pinned itself. They are placed as meant when that is
all there is to share, or when one allowed CPU is left to those whose pins all fail. -/
theorem placed_iff_single_core (allowed : Finset ℕ) (numWorkers : ℕ) (t : List PinIo)
    (s : Threads) (hrun : run (step allowed numWorkers) (start allowed) t = some s)
    (hcomplete : Complete numWorkers s) :
    Placed allowed s ↔ numWorkers = 0 ∨
      (0 ∈ allowed ∧ (allowed.card = 1 ∨ numWorkers = 1)) ∨
      (allowed.card = 1 ∧ ∀ io ∈ t, ¬ Accepted io) := by
  obtain ⟨hmain, rfl, -⟩ := hcomplete
  rw [List.length_eq_zero_iff]
  obtain ⟨rfl, -⟩ | ⟨hpinned, h⟩ | h := books_run hrun
  · cases hmain
  · have hsome : ¬ ∀ io ∈ t, ¬ Accepted io := fun hnone => hnone _ hpinned rfl
    rw [h.placed_iff, iff_false_intro hsome, and_false, or_false]
  · have hnone : (∀ i, .pinWorker i true ∉ t) ↔ ∀ io ∈ t, ¬ Accepted io := by
      constructor
      · intro hworkers io hio haccepted
        cases io with
        | pinMain accepted => exact h.refused (haccepted ▸ hio)
        | spawn => exact haccepted
        | pinWorker i accepted => exact hworkers i (haccepted ▸ hio)
      · exact fun hio i hi => hio _ hi rfl
    rw [h.placed_iff, hnone, iff_false_intro h.away, false_and, false_or]

def twoWorkers : List PinIo :=
  [.pinMain true, .spawn, .spawn, .pinWorker 1 true, .pinWorker 0 true]

theorem one_cpu_placed : ∃ s, run (step {0} 2) (start {0}) twoWorkers = some s ∧ Placed {0} s :=
  ⟨_, rfl, (placed_iff_single_core {0} 2 twoWorkers _ rfl ⟨rfl, rfl, by decide⟩).mpr
    (Or.inr (Or.inl ⟨by decide, Or.inl rfl⟩))⟩

/-- Of two CPUs the first gets both workers: they count the one CPU of the mask they
inherit. -/
theorem two_workers_share_core : ∃ s, run (step {0, 1} 2) (start {0, 1}) twoWorkers = some s ∧
    Complete 2 s ∧ load s 0 = 2 ∧ load s 1 = 0 ∧ ¬ Placed {0, 1} s := by
  refine ⟨_, rfl, ⟨rfl, rfl, by decide⟩, rfl, rfl, fun hplaced => ?_⟩
  exact absurd (hplaced.even 0 (by decide) 1 (by decide)) (by decide)

end KernelEngine.Placement
