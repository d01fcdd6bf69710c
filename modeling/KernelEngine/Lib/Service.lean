import KernelEngine.Lib.Runs
import Mathlib.Data.Finset.Basic
import Mathlib.Data.List.Forall2

namespace KernelEngine.Service
open Runs

/-- A server that answers questions one at a time. All its connections share a `G`, which
changes when a question is received and when its answer is sent. -/
structure Handler (E Q A G : Type*) where
  received : G → G
  answer : E → G → Q → Option A
  sent : A → G → G

/-- A question of one connection with what it was answered in, and the answer. -/
structure Exchange (C E Q A : Type*) where
  connection : C
  question : Q
  env : E
  answer : A

inductive Event (C E Q A : Type*) where
  | connect (c : C)
  | ask (c : C) (q : Q)
  | answer (c : C) (env : E)
  | send (c : C) (a : A)
  | hangUp (c : C)
  | stop

/-- What the server is at. Once stopped it may leave one question unanswered. -/
inductive Phase (C E Q A : Type*) where
  | idle
  | asked (c : C) (q : Q)
  | answered (x : Exchange C E Q A)
  | stopped (left : Option (C × Q))

/-- The connections there are, and all there have been. -/
structure State (C E Q A G : Type*) where
  live : Finset C
  used : Finset C
  phase : Phase C E Q A
  shared : G

variable {C E Q A G : Type*}

def State.start (g : G) : State C E Q A G := ⟨∅, ∅, .idle, g⟩

namespace Phase

/-- The question that has no answer sent yet. -/
def pending : Phase C E Q A → Option (C × Q)
  | .idle => none
  | .asked c q => some (c, q)
  | .answered x => some (x.connection, x.question)
  | .stopped left => left

@[simp] theorem pending_idle : (idle : Phase C E Q A).pending = none := rfl

@[simp] theorem pending_asked (c : C) (q : Q) :
    (asked c q : Phase C E Q A).pending = some (c, q) := rfl

@[simp] theorem pending_answered (x : Exchange C E Q A) :
    (answered x).pending = some (x.connection, x.question) := rfl

@[simp] theorem pending_stopped (left : Option (C × Q)) :
    (stopped left : Phase C E Q A).pending = left := rfl

end Phase

section Step

variable [DecidableEq C] [DecidableEq A]

/-- A question is taken in when the one before has been answered, from a connection that
is there; a question without an answer stops the server. -/
def step (h : Handler E Q A G) (s : State C E Q A G) (e : Event C E Q A) :
    Option (State C E Q A G) :=
  match s.phase, e with
  | .idle, .connect c =>
    if c ∈ s.used then none else some { s with live := insert c s.live, used := insert c s.used }
  | .idle, .ask c q => if c ∈ s.live then some { s with phase := .asked c q } else none
  | .asked c q, .answer c' env =>
    if c' = c then
      let g := h.received s.shared
      match h.answer env g q with
      | some a => some { s with phase := .answered ⟨c, q, env, a⟩, shared := g }
      | none => some { s with phase := .stopped (some (c, q)), shared := g }
    else none
  | .answered x, .send c a =>
    if c = x.connection ∧ a = x.answer then
      some { s with phase := .idle, shared := h.sent a s.shared }
    else none
  | .idle, .hangUp c => if c ∈ s.live then some { s with live := s.live.erase c } else none
  | .stopped _, .hangUp c => if c ∈ s.live then some { s with live := s.live.erase c } else none
  | phase, .stop => some { s with phase := .stopped phase.pending }
  | _, _ => none

/-- Everything one step can do. -/
inductive Step (h : Handler E Q A G) (s : State C E Q A G) :
    Event C E Q A → State C E Q A G → Prop
  | connect (hp : s.phase = .idle) {c : C} (hc : c ∉ s.used) :
      Step h s (.connect c) { s with live := insert c s.live, used := insert c s.used }
  | ask (hp : s.phase = .idle) {c : C} (hc : c ∈ s.live) (q : Q) :
      Step h s (.ask c q) { s with phase := .asked c q }
  | answer {c : C} {q : Q} (hp : s.phase = .asked c q) (env : E) {a : A}
      (ha : h.answer env (h.received s.shared) q = some a) :
      Step h s (.answer c env)
        { s with phase := .answered ⟨c, q, env, a⟩, shared := h.received s.shared }
  | answerNone {c : C} {q : Q} (hp : s.phase = .asked c q) (env : E)
      (ha : h.answer env (h.received s.shared) q = none) :
      Step h s (.answer c env)
        { s with phase := .stopped (some (c, q)), shared := h.received s.shared }
  | send {x : Exchange C E Q A} (hp : s.phase = .answered x) :
      Step h s (.send x.connection x.answer)
        { s with phase := .idle, shared := h.sent x.answer s.shared }
  | hangUp (hp : s.phase = .idle ∨ ∃ left, s.phase = .stopped left) {c : C} (hc : c ∈ s.live) :
      Step h s (.hangUp c) { s with live := s.live.erase c }
  | stop : Step h s .stop { s with phase := .stopped s.phase.pending }

variable {h : Handler E Q A G} {s s' : State C E Q A G} {e : Event C E Q A}

theorem step_cases (hs : step h s e = some s') : Step h s e s' := by
  unfold step at hs
  split at hs
  case h_1 c hp =>
    split_ifs at hs with hc
    obtain rfl := Option.some.inj hs
    exact .connect hp hc
  case h_2 c q hp =>
    obtain ⟨hc, hs⟩ := Option.ite_none_right_eq_some.mp hs
    obtain rfl := Option.some.inj hs
    exact .ask hp hc q
  case h_3 c q c' env hp =>
    obtain ⟨rfl, hs⟩ := Option.ite_none_right_eq_some.mp hs
    dsimp only at hs
    split at hs
    · obtain rfl := Option.some.inj hs
      exact .answer hp env ‹_›
    · obtain rfl := Option.some.inj hs
      exact .answerNone hp env ‹_›
  case h_4 x c a hp =>
    obtain ⟨⟨rfl, rfl⟩, hs'⟩ := Option.ite_none_right_eq_some.mp hs
    obtain rfl := Option.some.inj hs'
    exact .send hp
  case h_5 c hp =>
    obtain ⟨hc, hs⟩ := Option.ite_none_right_eq_some.mp hs
    obtain rfl := Option.some.inj hs
    exact .hangUp (Or.inl hp) hc
  case h_6 left c hp =>
    obtain ⟨hc, hs⟩ := Option.ite_none_right_eq_some.mp hs
    obtain rfl := Option.some.inj hs
    exact .hangUp (Or.inr ⟨left, hp⟩) hc
  case h_7 =>
    obtain rfl := Option.some.inj hs
    exact .stop
  case h_8 => cases hs

theorem step_connect (hp : s.phase = .idle) {c : C} (hc : c ∉ s.used) :
    step h s (.connect c) =
      some { s with live := insert c s.live, used := insert c s.used } := by
  simp only [step, hp, if_neg hc]

theorem step_ask (hp : s.phase = .idle) {c : C} (hc : c ∈ s.live) (q : Q) :
    step h s (.ask c q) = some { s with phase := .asked c q } := by
  simp only [step, hp, if_pos hc]

theorem step_answer {c : C} {q : Q} (hp : s.phase = .asked c q) {env : E} {a : A}
    (ha : h.answer env (h.received s.shared) q = some a) : step h s (.answer c env) =
      some { s with phase := .answered ⟨c, q, env, a⟩, shared := h.received s.shared } := by
  simp only [step, hp, ha, if_true]

theorem step_answerNone {c : C} {q : Q} (hp : s.phase = .asked c q) {env : E}
    (ha : h.answer env (h.received s.shared) q = none) : step h s (.answer c env) =
      some { s with phase := .stopped (some (c, q)), shared := h.received s.shared } := by
  simp only [step, hp, ha, if_true]

theorem step_send {x : Exchange C E Q A} (hp : s.phase = .answered x) :
    step h s (.send x.connection x.answer) =
      some { s with phase := .idle, shared := h.sent x.answer s.shared } := by
  simp only [step, hp, and_self, if_true]

theorem step_hangUp (hp : s.phase = .idle ∨ ∃ left, s.phase = .stopped left) {c : C}
    (hc : c ∈ s.live) : step h s (.hangUp c) = some { s with live := s.live.erase c } := by
  obtain hp | ⟨left, hp⟩ := hp <;> simp only [step, hp, if_pos hc]

theorem step_stop : step h s .stop = some { s with phase := .stopped s.phase.pending } := by
  unfold step
  split <;> first | rfl | contradiction

end Step

/-- The exchanges one after another, each from what the one before left. -/
def Serial (h : Handler E Q A G) : G → List (Exchange C E Q A) → G → Prop
  | g, [], g' => g = g'
  | g, x :: log, g' =>
    h.answer x.env (h.received g) x.question = some x.answer ∧
      Serial h (h.sent x.answer (h.received g)) log g'

theorem serial_append_iff {h : Handler E Q A G} {g g' : G} {log log' : List (Exchange C E Q A)} :
    Serial h g (log ++ log') g' ↔ ∃ m, Serial h g log m ∧ Serial h m log' g' := by
  induction log generalizing g with
  | nil => simp [Serial]
  | cons x log ih => simp only [List.cons_append, Serial, ih, and_assoc, exists_and_left]

theorem Serial.concat {h : Handler E Q A G} {g g' : G} {log : List (Exchange C E Q A)}
    (hlog : Serial h g log g') {x : Exchange C E Q A}
    (hx : h.answer x.env (h.received g') x.question = some x.answer) :
    Serial h g (log ++ [x]) (h.sent x.answer (h.received g')) :=
  serial_append_iff.mpr ⟨g', hlog, hx, rfl⟩

theorem Serial.answer_of_mem {h : Handler E Q A G} {g g' : G} {log : List (Exchange C E Q A)}
    (hlog : Serial h g log g') {x : Exchange C E Q A} (hx : x ∈ log) :
    ∃ g, h.answer x.env g x.question = some x.answer := by
  obtain ⟨before, after, rfl⟩ := List.append_of_mem hx
  obtain ⟨m, -, hanswer, -⟩ := serial_append_iff.mp hlog
  exact ⟨_, hanswer⟩

namespace Event

def asked : Event C E Q A → List (C × Q)
  | .ask c q => [(c, q)]
  | _ => []

def served : Event C E Q A → List (C × E)
  | .answer c env => [(c, env)]
  | _ => []

def sent : Event C E Q A → List (C × A)
  | .send c a => [(c, a)]
  | _ => []

/-- The connection an event needs. -/
def uses : Event C E Q A → Option C
  | .ask c _ => some c
  | .answer c _ => some c
  | .send c _ => some c
  | .hangUp c => some c
  | _ => none

end Event

/-- The questions a trace asks, the environments it answers them in and the answers it
sends, each with its connection. -/
def asks (t : List (Event C E Q A)) : List (C × Q) := t.flatMap Event.asked

def serves (t : List (Event C E Q A)) : List (C × E) := t.flatMap Event.served

def sends (t : List (Event C E Q A)) : List (C × A) := t.flatMap Event.sent

section Traces

variable (t : List (Event C E Q A)) (e : Event C E Q A)

theorem asks_concat : asks (t ++ [e]) = asks t ++ e.asked := by
  simp [asks]

theorem serves_concat : serves (t ++ [e]) = serves t ++ e.served := by
  simp [serves]

theorem sends_concat : sends (t ++ [e]) = sends t ++ e.sent := by
  simp [sends]

end Traces

namespace Exchange

def asked (x : Exchange C E Q A) : C × Q := (x.connection, x.question)

def served (x : Exchange C E Q A) : C × E := (x.connection, x.env)

def sent (x : Exchange C E Q A) : C × A := (x.connection, x.answer)

end Exchange

/-- How far the question at hand has come, after the exchanges of the log have led to `g`. -/
def AtHand (h : Handler E Q A G) (log : List (Exchange C E Q A)) (g : G) (served : List (C × E))
    (shared : G) : Phase C E Q A → Prop
  | .idle => shared = g ∧ served = log.map Exchange.served
  | .asked _ _ => shared = g ∧ served = log.map Exchange.served
  | .answered x => shared = h.received g ∧
      h.answer x.env (h.received g) x.question = some x.answer ∧
      served = log.map Exchange.served ++ [x.served]
  | .stopped _ => log.map Exchange.served <+: served

/-- The trace is its log of exchanges, one after another, and the question at hand. -/
structure Books (h : Handler E Q A G) (g₀ : G) (t : List (Event C E Q A)) (s : State C E Q A G)
    (log : List (Exchange C E Q A)) (g : G) : Prop where
  serial : Serial h g₀ log g
  asked : asks t = log.map Exchange.asked ++ s.phase.pending.toList
  sent : sends t = log.map Exchange.sent
  atHand : AtHand h log g (serves t) s.shared s.phase

section Serial

variable {h : Handler E Q A G} {g₀ : G} {s s' : State C E Q A G} {e : Event C E Q A}
  {t : List (Event C E Q A)} {log : List (Exchange C E Q A)} {g : G}

/-- The books of a step that asks, serves and sends nothing and leaves the question at hand. -/
theorem Books.silent (hb : Books h g₀ t s log g) (hasked : e.asked = []) (hserved : e.served = [])
    (hsent : e.sent = []) (hpending : s'.phase.pending = s.phase.pending)
    (hhand : AtHand h log g (serves t) s'.shared s'.phase) : Books h g₀ (t ++ [e]) s' log g where
  serial := hb.serial
  asked := by rw [asks_concat, hasked, List.append_nil, hb.asked, hpending]
  sent := by rw [sends_concat, hsent, List.append_nil, hb.sent]
  atHand := by rwa [serves_concat, hserved, List.append_nil]

theorem AtHand.served_prefix {served : List (C × E)} {shared : G} {phase : Phase C E Q A}
    (hhand : AtHand h log g served shared phase) : log.map Exchange.served <+: served := by
  cases phase with
  | idle | asked =>
    obtain ⟨-, rfl⟩ := hhand
    exact List.prefix_rfl
  | answered x =>
    obtain ⟨-, -, rfl⟩ := hhand
    exact List.prefix_append _ _
  | stopped left => exact hhand

variable [DecidableEq C] [DecidableEq A]

theorem books_step (hb : Books h g₀ t s log g) (hs : step h s e = some s') :
    ∃ log g, Books h g₀ (t ++ [e]) s' log g := by
  have hhand := hb.atHand
  have hasked := hb.asked
  cases step_cases hs with
  | connect hp =>
    rw [hp] at hhand
    refine ⟨log, g, hb.silent rfl rfl rfl rfl ?_⟩
    rw [hp]
    exact hhand
  | hangUp => exact ⟨log, g, hb.silent rfl rfl rfl rfl hhand⟩
  | stop => exact ⟨log, g, hb.silent rfl rfl rfl rfl hhand.served_prefix⟩
  | ask hp hc q =>
    rw [hp] at hhand hasked
    refine ⟨log, g, hb.serial, ?_, ?_, ?_⟩
    · rw [asks_concat, hasked, Phase.pending_idle, Option.toList_none, List.append_nil]
      rfl
    · rw [sends_concat, hb.sent]
      exact List.append_nil _
    · rw [serves_concat]
      exact ⟨hhand.1, (List.append_nil _).trans hhand.2⟩
  | answer hp env ha =>
    rw [hp] at hhand hasked
    obtain ⟨hshared, hserved⟩ := hhand
    rw [hshared] at ha ⊢
    refine ⟨log, g, hb.serial, ?_, ?_, rfl, ha, ?_⟩
    · rw [asks_concat, hasked]
      exact List.append_nil _
    · rw [sends_concat, hb.sent]
      exact List.append_nil _
    · rw [serves_concat, hserved]
      rfl
  | answerNone hp env ha =>
    rw [hp] at hhand hasked
    refine ⟨log, g, hb.serial, ?_, ?_, ?_⟩
    · rw [asks_concat, hasked]
      exact List.append_nil _
    · rw [sends_concat, hb.sent]
      exact List.append_nil _
    · rw [serves_concat, hhand.2]
      exact List.prefix_append _ _
  | @send x hp =>
    rw [hp] at hhand hasked
    obtain ⟨hshared, hx, hserved⟩ := hhand
    refine ⟨log ++ [x], _, hb.serial.concat hx, ?_, ?_, ?_, ?_⟩
    · rw [asks_concat, hasked, List.map_append]
      exact (List.append_nil _).trans (List.append_nil _).symm
    · rw [sends_concat, hb.sent, List.map_append]
      rfl
    · rw [hshared]
    · rw [serves_concat, hserved, List.map_append]
      exact List.append_nil _

/-- Every run answers its questions one after another: there is one order of exchanges in
which each answer comes from what the exchange before left. -/
theorem books_of_run (hrun : run (step h) (.start g₀) t = some s) :
    ∃ log g, Books h g₀ t s log g := by
  refine run_history_of_step (I := fun t s => ∃ log g, Books h g₀ t s log g) ?_ ?_ hrun
  · rintro t s e s' ⟨log, g, hb⟩ hs
    exact books_step hb hs
  · exact ⟨[], g₀, rfl, rfl, rfl, rfl, rfl⟩

end Serial

section Connections

variable [DecidableEq C]

/-- What concerns one connection. -/
def ofConnection {α : Type*} (c : C) (l : List (C × α)) : List α :=
  l.filterMap fun p => if p.1 = c then some p.2 else none

variable {α : Type*} {c : C}

@[simp] theorem ofConnection_nil : ofConnection c ([] : List (C × α)) = [] := rfl

theorem ofConnection_append (l l' : List (C × α)) :
    ofConnection c (l ++ l') = ofConnection c l ++ ofConnection c l' :=
  List.filterMap_append

theorem ofConnection_cons_self (a : α) (l : List (C × α)) :
    ofConnection c ((c, a) :: l) = a :: ofConnection c l := by
  simp [ofConnection]

theorem ofConnection_cons_of_ne {p : C × α} (hp : p.1 ≠ c) (l : List (C × α)) :
    ofConnection c (p :: l) = ofConnection c l := by
  simp [ofConnection, hp]

theorem mem_ofConnection {a : α} {l : List (C × α)} : a ∈ ofConnection c l ↔ (c, a) ∈ l := by
  simp only [ofConnection, List.mem_filterMap, Option.ite_none_right_eq_some, Option.some.injEq]
  constructor
  · rintro ⟨⟨d, b⟩, hmem, rfl, rfl⟩
    exact hmem
  · intro hmem
    exact ⟨(c, a), hmem, rfl, rfl⟩

/-- Of pairs made from a log, those of a connection are made from its part of the log. -/
theorem ofConnection_map (f : Exchange C E Q A → α) (log : List (Exchange C E Q A)) :
    ofConnection c (log.map fun x => (x.connection, f x)) =
      (log.filter fun x => x.connection = c).map f := by
  induction log with
  | nil => rfl
  | cons x log ih =>
    rw [List.map_cons]
    by_cases hc : x.connection = c
    · subst hc
      rw [ofConnection_cons_self, ih, List.filter_cons_of_pos (by simp), List.map_cons]
    · rw [ofConnection_cons_of_ne hc, ih, List.filter_cons_of_neg (by simpa using hc)]

theorem ofConnection_forall₂ {β : Type*} {R : α → β → Prop} {l : List (C × α)} {l' : List (C × β)}
    (h : List.Forall₂ (fun p q => p.1 = q.1 ∧ R p.2 q.2) l l') :
    List.Forall₂ R (ofConnection c l) (ofConnection c l') := by
  induction h with
  | nil => exact .nil
  | @cons p q l l' hpq _ ih =>
    obtain ⟨d, a⟩ := p
    obtain ⟨d', b⟩ := q
    obtain ⟨rfl, hR⟩ := hpq
    by_cases hc : d = c
    · subst hc
      rw [ofConnection_cons_self, ofConnection_cons_self]
      exact .cons hR ih
    · rw [ofConnection_cons_of_ne hc, ofConnection_cons_of_ne hc]
      exact ih

/-- Where each question of a connection has the answer `f` gives it, so has the list. -/
theorem map_asked_eq {log : List (Exchange C E Q A)} {f : Q → Option A}
    (hlog : ∀ x ∈ log, x.connection = c → f x.question = some x.answer) :
    (ofConnection c (log.map Exchange.asked)).map f =
      (ofConnection c (log.map Exchange.sent)).map some := by
  induction log with
  | nil => rfl
  | cons x log ih =>
    obtain ⟨hx, hlog⟩ := List.forall_mem_cons.mp hlog
    rw [List.map_cons, List.map_cons]
    by_cases hc : x.connection = c
    · subst hc
      rw [Exchange.asked, Exchange.sent, ofConnection_cons_self, ofConnection_cons_self,
        List.map_cons, List.map_cons, hx rfl, ih hlog]
    · rw [ofConnection_cons_of_ne hc, ofConnection_cons_of_ne hc, ih hlog]

end Connections

section Plain

variable [DecidableEq C] {h : Handler E Q A G} {g₀ : G} {s s' : State C E Q A G}
  {t t' : List (Event C E Q A)} {log log' : List (Exchange C E Q A)} {g g' : G} {c c' : C}
  {Plain : Q → Prop} {fair : E → Prop} {f : Q → Option A}

/-- Questions whose answers do not depend on what is shared: a connection that asks no
others is answered by a function of its questions. -/
theorem Books.map_asks (hb : Books h g₀ t s log g)
    (hf : ∀ env g q, fair env → Plain q → h.answer env g q = f q)
    (hplain : ∀ q ∈ ofConnection c (asks t), Plain q)
    (hfair : ∀ env ∈ ofConnection c (serves t), fair env) :
    (ofConnection c (asks t)).map f = (ofConnection c (sends t)).map some ++
      (ofConnection c s.phase.pending.toList).map f := by
  have hlog (x : Exchange C E Q A) (hx : x ∈ log) (hc : x.connection = c) :
      f x.question = some x.answer := by
    obtain ⟨g, hanswer⟩ := hb.serial.answer_of_mem hx
    subst hc
    have hq : x.question ∈ ofConnection x.connection (asks t) := by
      rw [mem_ofConnection, hb.asked]
      exact List.mem_append_left _ (List.mem_map_of_mem hx)
    have henv : x.env ∈ ofConnection x.connection (serves t) :=
      mem_ofConnection.mpr (hb.atHand.served_prefix.subset (List.mem_map_of_mem hx))
    rw [← hf x.env g x.question (hfair _ henv) (hplain _ hq), hanswer]
  rw [hb.asked, hb.sent, ofConnection_append, List.map_append, map_asked_eq hlog]

/-- Two connections, of one run or of two, that ask the same such questions are sent the
same answers, whatever the others ask. -/
theorem Books.sends_congr {g₁ : G} (hb : Books h g₀ t s log g) (hb' : Books h g₁ t' s' log' g')
    (hf : ∀ env g q, fair env → Plain q → h.answer env g q = f q)
    (hplain : ∀ q ∈ ofConnection c (asks t), Plain q)
    (hfair : ∀ env ∈ ofConnection c (serves t), fair env)
    (hfair' : ∀ env ∈ ofConnection c' (serves t'), fair env)
    (hasks : ofConnection c (asks t) = ofConnection c' (asks t'))
    (hdone : ofConnection c s.phase.pending.toList = [])
    (hdone' : ofConnection c' s'.phase.pending.toList = []) :
    ofConnection c (sends t) = ofConnection c' (sends t') := by
  have h₁ := hb.map_asks hf hplain hfair
  have h₂ := hb'.map_asks hf (by rwa [← hasks]) hfair'
  rw [hdone, List.map_nil, List.append_nil] at h₁
  rw [hdone', List.map_nil, List.append_nil] at h₂
  apply List.map_injective_iff.mpr (Option.some_injective A)
  rw [← h₁, ← h₂, hasks]

end Plain

/-- A connection is used between its one connect and its hang-up. -/
structure Orderly (t : List (Event C E Q A)) : Prop where
  connected : ∀ u e c, u ++ [e] <+: t → e.uses = some c → .connect c ∈ u
  kept : ∀ u e c, u ++ [e] <+: t → e.uses = some c → .hangUp c ∉ u
  once : ∀ u c, u ++ [.connect c] <+: t → .connect c ∉ u

/-- Which connections the trace so far has opened and closed. -/
structure Census (t : List (Event C E Q A)) (s : State C E Q A G) : Prop where
  used : ∀ c, c ∈ s.used ↔ .connect c ∈ t
  live : ∀ c, c ∈ s.live ↔ .connect c ∈ t ∧ .hangUp c ∉ t
  closed : ∀ c, .hangUp c ∈ t → .connect c ∈ t
  asked : ∀ c q, s.phase = .asked c q → c ∈ s.live
  answered : ∀ x, s.phase = .answered x → x.connection ∈ s.live

section Lifecycle

variable {h : Handler E Q A G} {g₀ : G} {s s' : State C E Q A G} {e : Event C E Q A}
  {t : List (Event C E Q A)} {c : C}

theorem mem_concat_of_ne {d : Event C E Q A} (hne : e ≠ d) : d ∈ t ++ [e] ↔ d ∈ t := by
  rw [List.mem_append, List.mem_singleton, or_iff_left hne.symm]

/-- Who is there changes only by connecting and hanging up. -/
theorem Census.same (hc : Census t s) (hconnect : ∀ c, e ≠ .connect c)
    (hhang : ∀ c, e ≠ .hangUp c) (hused : s'.used = s.used) (hlive : s'.live = s.live)
    (hasked : ∀ c q, s'.phase = .asked c q → c ∈ s.live)
    (hanswered : ∀ x, s'.phase = .answered x → x.connection ∈ s.live) :
    Census (t ++ [e]) s' where
  used c := by rw [hused, hc.used, mem_concat_of_ne (hconnect c)]
  live c := by
    rw [hlive, hc.live, mem_concat_of_ne (hconnect c), mem_concat_of_ne (hhang c)]
  closed c hmem := by
    rw [mem_concat_of_ne (hconnect c)]
    exact hc.closed c ((mem_concat_of_ne (hhang c)).mp hmem)
  asked c q hp := hlive ▸ hasked c q hp
  answered x hp := hlive ▸ hanswered x hp

variable [DecidableEq C]

theorem Census.connect (hc : Census t s) (hp : s.phase = .idle) (hfresh : c ∉ s.used) :
    Census (t ++ [.connect c])
      { s with live := insert c s.live, used := insert c s.used } where
  used d := by
    rw [Finset.mem_insert, hc.used, List.mem_append, List.mem_singleton, Event.connect.injEq,
      or_comm]
  live d := by
    have hhang : .hangUp d ∈ t ++ [.connect c] ↔ .hangUp d ∈ t := mem_concat_of_ne (by simp)
    rw [Finset.mem_insert, hc.live, hhang, List.mem_append, List.mem_singleton,
      Event.connect.injEq, or_and_right, or_comm]
    refine or_congr_right ⟨?_, And.left⟩
    rintro rfl
    -- a connection that has hung up had connected before
    exact ⟨rfl, fun hmem => hfresh ((hc.used d).mpr (hc.closed d hmem))⟩
  closed d hmem := List.mem_append_left _ (hc.closed d ((mem_concat_of_ne (by simp)).mp hmem))
  asked d q hp' := by simp [hp] at hp'
  answered x hp' := by simp [hp] at hp'

theorem Census.hangUp (hc : Census t s) (hp : s.phase = .idle ∨ ∃ left, s.phase = .stopped left)
    (hlive : c ∈ s.live) : Census (t ++ [.hangUp c]) { s with live := s.live.erase c } where
  used d := by rw [mem_concat_of_ne (by simp), hc.used]
  live d := by
    rw [Finset.mem_erase, hc.live, mem_concat_of_ne (by simp), List.mem_append,
      List.mem_singleton, Event.hangUp.injEq, not_or, and_left_comm, and_comm (a := d ≠ c)]
  closed d hmem := by
    rw [mem_concat_of_ne (by simp)]
    obtain hmem | hmem := List.mem_append.mp hmem
    · exact hc.closed d hmem
    · obtain rfl := Event.hangUp.inj (List.mem_singleton.mp hmem)
      exact ((hc.live d).mp hlive).1
  asked d q hp' := by
    obtain hp | ⟨left, hp⟩ := hp <;> simp [hp] at hp'
  answered x hp' := by
    obtain hp | ⟨left, hp⟩ := hp <;> simp [hp] at hp'

variable [DecidableEq A]

theorem census_step (hc : Census t s) (hs : step h s e = some s') : Census (t ++ [e]) s' := by
  cases step_cases hs with
  | connect hp hfresh => exact hc.connect hp hfresh
  | hangUp hp hlive => exact hc.hangUp hp hlive
  | ask hp hlive q =>
    refine hc.same (by simp) (by simp) rfl rfl ?_ (by simp)
    rintro _ _ ⟨⟩
    exact hlive
  | answer hp env ha =>
    refine hc.same (by simp) (by simp) rfl rfl (by simp) ?_
    rintro _ ⟨⟩
    exact hc.asked _ _ hp
  | answerNone | send | stop => exact hc.same (by simp) (by simp) rfl rfl (by simp) (by simp)

theorem census_of_run {t : List (Event C E Q A)} (hrun : run (step h) (.start g₀) t = some s) :
    Census t s := by
  refine run_history_of_step (fun _ _ _ _ hc hs => census_step hc hs) ?_ hrun
  constructor <;> simp [State.start]

/-- What a step uses is there. -/
theorem Census.uses (hc : Census t s) (hs : step h s e = some s') (huses : e.uses = some c) :
    .connect c ∈ t ∧ .hangUp c ∉ t := by
  rw [← hc.live]
  cases step_cases hs with
  | ask _ hlive | hangUp _ hlive =>
    obtain rfl := Option.some.inj huses
    exact hlive
  | answer hp | answerNone hp =>
    obtain rfl := Option.some.inj huses
    exact hc.asked _ _ hp
  | send hp =>
    obtain rfl := Option.some.inj huses
    exact hc.answered _ hp
  | connect | stop => cases huses

/-- In every run each connection is used only between its connect, which comes once, and
its hang-up. -/
theorem orderly_of_run (hrun : run (step h) (.start g₀) t = some s) : Orderly t := by
  have hat (u : List (Event C E Q A)) (e : Event C E Q A) (hpre : u ++ [e] <+: t) :
      ∃ m m', Census u m ∧ step h m e = some m' := by
    obtain ⟨v, rfl⟩ := hpre
    obtain ⟨m', hm', -⟩ := run_append_iff.mp hrun
    obtain ⟨m, hm, hs⟩ := run_concat_iff.mp hm'
    exact ⟨m, m', census_of_run hm, hs⟩
  constructor
  · intro u e c hpre huses
    obtain ⟨m, m', hc, hs⟩ := hat u e hpre
    exact (hc.uses hs huses).1
  · intro u e c hpre huses
    obtain ⟨m, m', hc, hs⟩ := hat u e hpre
    exact (hc.uses hs huses).2
  · intro u c hpre
    obtain ⟨m, m', hc, hs⟩ := hat u _ hpre
    rw [← hc.used]
    cases step_cases hs with
    | connect hp hfresh => exact hfresh

end Lifecycle

end KernelEngine.Service
