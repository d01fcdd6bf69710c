import Mathlib.Data.List.Induction
import Mathlib.Data.Option.Basic

namespace KernelEngine.Runs

variable {σ τ ε : Type*}

/-- Reaching a state by a finite trace of a machine given by a partial step
function: a label the state does not offer has no step. -/
def run (step : σ → ε → Option σ) : σ → List ε → Option σ
  | s, [] => some s
  | s, e :: t => (step s e).bind fun s' => run step s' t

section Basics

variable {step : σ → ε → Option σ} {s m s' : σ} {e : ε} {t u : List ε}

@[simp] theorem run_nil : run step s [] = some s := rfl

theorem run_cons_iff : run step s (e :: t) = some s' ↔
    ∃ m, step s e = some m ∧ run step m t = some s' := by
  simp only [run, Option.bind_eq_some_iff]

theorem run_append_iff : run step s (t ++ u) = some s' ↔
    ∃ m, run step s t = some m ∧ run step m u = some s' := by
  induction t generalizing s with
  | nil => simp
  | cons e t ih =>
    simp only [List.cons_append, run_cons_iff, ih]
    constructor
    · rintro ⟨m, hm, n, hn, hu⟩
      exact ⟨n, ⟨m, hm, hn⟩, hu⟩
    · rintro ⟨n, ⟨m, hm, hn⟩, hu⟩
      exact ⟨m, hm, n, hn, hu⟩

theorem run_concat_iff : run step s (t ++ [e]) = some s' ↔
    ∃ m, run step s t = some m ∧ step m e = some s' := by
  simp [run_append_iff, run_cons_iff]

end Basics

/-- `P` holds of every step of the run. The trace is taken as far as it runs. -/
def Along (step : σ → ε → Option σ) (P : σ → ε → σ → Prop) : σ → List ε → Prop
  | _, [] => True
  | s, e :: t => ∀ s', step s e = some s' → P s e s' ∧ Along step P s' t

/-- A finite trace can be checked step by step. -/
instance decidableAlong (step : σ → ε → Option σ) (P : σ → ε → σ → Prop)
    [∀ s e s', Decidable (P s e s')] : ∀ s t, Decidable (Along step P s t)
  | _, [] => isTrue trivial
  | s, e :: t =>
    match h : step s e with
    | none => isTrue fun _ hs => by rw [h] at hs; cases hs
    | some m =>
      have := decidableAlong step P m t
      decidable_of_iff (P s e m ∧ Along step P m t) (by simp [Along, h])

section Rules

variable {step : σ → ε → Option σ} {P Q : σ → ε → σ → Prop} {s s' : σ} {e : ε} {t u : List ε}

@[simp] theorem along_nil : Along step P s [] := trivial

theorem along_cons_iff (hs : step s e = some s') :
    Along step P s (e :: t) ↔ P s e s' ∧ Along step P s' t := by
  simp only [Along, hs, Option.some.injEq]
  constructor
  · intro h
    exact h s' rfl
  · rintro h _ rfl
    exact h

theorem along_append_iff (hrun : run step s t = some s') :
    Along step P s (t ++ u) ↔ Along step P s t ∧ Along step P s' u := by
  induction t generalizing s with
  | nil =>
    obtain rfl : s = s' := Option.some.inj hrun
    simp
  | cons e t ih =>
    obtain ⟨m, hm, ht⟩ := run_cons_iff.mp hrun
    rw [List.cons_append, along_cons_iff hm, along_cons_iff hm, ih ht, and_assoc]

theorem Along.mono (hPQ : ∀ s e s', step s e = some s' → P s e s' → Q s e s')
    (h : Along step P s t) : Along step Q s t := by
  induction t generalizing s with
  | nil => trivial
  | cons e t ih =>
    intro s' hs
    obtain ⟨hP, ht⟩ := h s' hs
    exact ⟨hPQ s e s' hs hP, ih ht⟩

theorem along_and_iff :
    Along step (fun s e s' => P s e s' ∧ Q s e s') s t ↔ Along step P s t ∧ Along step Q s t := by
  induction t generalizing s with
  | nil => simp
  | cons e t ih =>
    simp only [Along, ih]
    constructor
    · intro h
      exact ⟨fun s' hs => ⟨(h s' hs).1.1, (h s' hs).2.1⟩,
        fun s' hs => ⟨(h s' hs).1.2, (h s' hs).2.2⟩⟩
    · intro h s' hs
      exact ⟨⟨(h.1 s' hs).1, (h.2 s' hs).1⟩, (h.1 s' hs).2, (h.2 s' hs).2⟩

/-- The invariant rule for runs whose steps all meet `P`. -/
theorem run_invariant {I : σ → Prop}
    (hstep : ∀ s e s', I s → step s e = some s' → P s e s' → I s')
    (h0 : I s) (hP : Along step P s t) (hrun : run step s t = some s') : I s' := by
  induction t generalizing s with
  | nil =>
    obtain rfl : s = s' := Option.some.inj hrun
    exact h0
  | cons e t ih =>
    obtain ⟨m, hm, ht⟩ := run_cons_iff.mp hrun
    obtain ⟨he, hrest⟩ := hP m hm
    exact ih (hstep s e m h0 hm he) hrest ht

/-- What every step of such a run satisfies, given the invariant before it. -/
theorem along_of_invariant {I : σ → Prop}
    (hstep : ∀ s e s', I s → step s e = some s' → P s e s' → I s' ∧ Q s e s')
    (h0 : I s) (hP : Along step P s t) : Along step Q s t := by
  induction t generalizing s with
  | nil => trivial
  | cons e t ih =>
    intro s' hs
    obtain ⟨he, hrest⟩ := hP s' hs
    obtain ⟨hI, hQ⟩ := hstep s e s' h0 hs he
    exact ⟨hQ, ih hI hrest⟩

/-- An exact step condition is an exact run condition: where a step meets `P`
the invariant and `Q` follow, and where it does not `Q` fails. -/
theorem along_iff_of_exact {I : σ → Prop}
    (hkeep : ∀ s e s', I s → step s e = some s' → P s e s' → I s' ∧ Q s e s')
    (hfail : ∀ s e s', I s → step s e = some s' → Q s e s' → P s e s')
    (h0 : I s) : Along step Q s t ↔ Along step P s t := by
  refine ⟨fun h => ?_, along_of_invariant hkeep h0⟩
  induction t generalizing s with
  | nil => trivial
  | cons e t ih =>
    intro s' hs
    obtain ⟨hQ, hrest⟩ := h s' hs
    have hP := hfail s e s' h0 hs hQ
    exact ⟨hP, ih (hkeep s e s' h0 hs hP).1 hrest⟩

/-- Step properties that an invariant and a side condition make equivalent. -/
theorem along_congr {I : σ → Prop} {C : σ → ε → σ → Prop}
    (hkeep : ∀ s e s', I s → step s e = some s' → I s')
    (hiff : ∀ s e s', I s → step s e = some s' → C s e s' → (P s e s' ↔ Q s e s'))
    (h0 : I s) (hC : Along step C s t) : Along step P s t ↔ Along step Q s t := by
  induction t generalizing s with
  | nil => exact Iff.rfl
  | cons e t ih =>
    refine forall₂_congr fun s' hs => ?_
    obtain ⟨hCe, hCt⟩ := hC s' hs
    exact and_congr (hiff s e s' h0 hs hCe) (ih (hkeep s e s' h0 hs) hCt)

/-- Step properties seen at one place of the run. -/
theorem Along.at_step {m : σ} (h : Along step P s (t ++ e :: u))
    (hrun : run step s t = some m) (hs : step m e = some s') : P m e s' :=
  ((along_cons_iff hs).mp ((along_append_iff hrun).mp h).2).1

theorem along_of_forall_mem (h : ∀ e ∈ t, ∀ s s', step s e = some s' → P s e s') :
    Along step P s t := by
  induction t generalizing s with
  | nil => trivial
  | cons e t ih =>
    exact fun s' hs => ⟨h e (by simp) s s' hs, ih fun d hd => h d (List.mem_cons_of_mem _ hd)⟩

/-- Along a run a property of the labels is one of the trace. -/
theorem along_label_iff {C : ε → Prop} (hrun : run step s t = some s') :
    Along step (fun _ e _ => C e) s t ↔ ∀ e ∈ t, C e := by
  induction t generalizing s with
  | nil => simp
  | cons e t ih =>
    obtain ⟨m, hm, ht⟩ := run_cons_iff.mp hrun
    rw [along_cons_iff hm, ih ht, List.forall_mem_cons]

/-- A property of the labels shown for each step in its place. -/
theorem forall_mem_of_split {C : ε → Prop} (hrun : run step s t = some s')
    (h : ∀ u e m m', u ++ [e] <+: t → run step s u = some m → step m e = some m' → C e) :
    ∀ e ∈ t, C e := by
  intro e he
  obtain ⟨u, v, rfl⟩ := List.append_of_mem he
  obtain ⟨m, hm, hrest⟩ := run_append_iff.mp hrun
  obtain ⟨m', hs, -⟩ := run_cons_iff.mp hrest
  exact h u e m m' ⟨v, by simp⟩ hm hs

theorem along_true : Along step (fun _ _ _ => True) s t := by
  induction t generalizing s with
  | nil => trivial
  | cons e t ih => exact fun s' _ => ⟨trivial, ih⟩

/-- The invariant rule for an invariant that every step keeps. -/
theorem run_invariant_of_step {I : σ → Prop} (hstep : ∀ s e s', I s → step s e = some s' → I s')
    (h0 : I s) (hrun : run step s t = some s') : I s' := by
  refine run_invariant ?_ h0 along_true hrun
  intro s e s' h hs _
  exact hstep s e s' h hs

end Rules

section History

variable {step : σ → ε → Option σ} {P : σ → ε → σ → Prop} {s s' : σ} {t : List ε}

/-- The invariant rule with the trace so far as a history variable. -/
theorem run_history {I : List ε → σ → Prop}
    (hstep : ∀ t s e s', I t s → step s e = some s' → P s e s' → I (t ++ [e]) s')
    (h0 : I [] s) (hP : Along step P s t) (hrun : run step s t = some s') : I t s' := by
  -- the history grows at its end, and so does the induction
  induction t using List.reverseRecOn generalizing s' with
  | nil =>
    obtain rfl : s = s' := Option.some.inj hrun
    exact h0
  | append_singleton t e ih =>
    obtain ⟨m, hm, hs⟩ := run_concat_iff.mp hrun
    obtain ⟨hPt, hPe⟩ := (along_append_iff hm).mp hP
    exact hstep t m e s' (ih hPt hm) hs (hPe s' hs).1

/-- The same for books that every step keeps. -/
theorem run_history_of_step {I : List ε → σ → Prop}
    (hstep : ∀ t s e s', I t s → step s e = some s' → I (t ++ [e]) s')
    (h0 : I [] s) (hrun : run step s t = some s') : I t s' := by
  refine run_history ?_ h0 along_true hrun
  intro t s e s' h hs _
  exact hstep t s e s' h hs

end History

section Product

variable {stepA : σ → ε → Option σ} {stepB : τ → ε → Option τ}

/-- Two machines reading the same labels: a program and the monitor of its
environment. -/
def sync (stepA : σ → ε → Option σ) (stepB : τ → ε → Option τ) (p : σ × τ) (e : ε) :
    Option (σ × τ) :=
  (stepA p.1 e).bind fun a => (stepB p.2 e).map fun b => (a, b)

theorem sync_iff {p q : σ × τ} {e : ε} : sync stepA stepB p e = some q ↔
    stepA p.1 e = some q.1 ∧ stepB p.2 e = some q.2 := by
  obtain ⟨a, b⟩ := q
  simp [sync, Option.bind_eq_some_iff]

theorem run_sync_iff {p q : σ × τ} {t : List ε} : run (sync stepA stepB) p t = some q ↔
    run stepA p.1 t = some q.1 ∧ run stepB p.2 t = some q.2 := by
  induction t generalizing p with
  | nil => simp [run, Prod.ext_iff]
  | cons e t ih =>
    simp only [run_cons_iff, sync_iff, ih]
    constructor
    · rintro ⟨m, ⟨ha, hb⟩, hta, htb⟩
      exact ⟨⟨m.1, ha, hta⟩, m.2, hb, htb⟩
    · rintro ⟨⟨a, ha, hta⟩, b, hb, htb⟩
      exact ⟨(a, b), ⟨ha, hb⟩, hta, htb⟩

end Product

end KernelEngine.Runs
