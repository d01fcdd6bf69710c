import KernelEngine.Lib.Runs
import Mathlib.Data.List.Forall2

namespace KernelEngine.Runs

variable {σ τ ε δ : Type*}

/-- What a run shows of itself. A step may show nothing, or several things, and what it
shows may depend on the state it leaves. -/
def shown (step : σ → ε → Option σ) (shows : σ → ε → List δ) : σ → List ε → List δ
  | _, [] => []
  | s, e :: t => shows s e ++ (step s e).elim [] fun s' => shown step shows s' t

section Shown

variable {step : σ → ε → Option σ} {shows : σ → ε → List δ} {s m s' : σ} {e : ε} {t u : List ε}

@[simp] theorem shown_nil : shown step shows s [] = [] := rfl

theorem shown_cons (hs : step s e = some s') :
    shown step shows s (e :: t) = shows s e ++ shown step shows s' t := by
  rw [shown, hs, Option.elim_some]

theorem shown_append (hrun : run step s t = some m) :
    shown step shows s (t ++ u) = shown step shows s t ++ shown step shows m u := by
  induction t generalizing s with
  | nil =>
    obtain rfl : s = m := Option.some.inj hrun
    rfl
  | cons e t ih =>
    obtain ⟨n, hn, ht⟩ := run_cons_iff.mp hrun
    rw [List.cons_append, shown_cons hn, shown_cons hn, ih ht, List.append_assoc]

theorem shown_concat (hrun : run step s t = some m) (hs : step m e = some s') :
    shown step shows s (t ++ [e]) = shown step shows s t ++ shows m e := by
  rw [shown_append hrun, shown_cons hs, shown_nil, List.append_nil]

/-- What is shown is shown by some step of the trace. -/
theorem mem_shown {d : δ} (hd : d ∈ shown step shows s t) : ∃ e ∈ t, ∃ m, d ∈ shows m e := by
  induction t generalizing s with
  | nil => cases hd
  | cons e t ih =>
    obtain hd | hd := List.mem_append.mp hd
    · exact ⟨e, List.mem_cons_self, s, hd⟩
    · cases hs : step s e with
      | none =>
        rw [hs] at hd
        cases hd
      | some s' =>
        rw [hs, Option.elim_some] at hd
        obtain ⟨e', he', m, hm⟩ := ih hd
        exact ⟨e', List.mem_cons_of_mem _ he', m, hm⟩

/-- Where a step shows at most one thing, what has been shown up to some moment is what a first
part of the trace shows. -/
theorem prefix_of_shown (hshows : ∀ s e, (shows s e).length ≤ 1) {w : List δ}
    (hrun : run step s t = some s') (hw : w <+: shown step shows s t) :
    ∃ u, u <+: t ∧ shown step shows s u = w := by
  induction t generalizing s w with
  | nil => exact ⟨[], List.prefix_rfl, (List.prefix_nil.mp hw).symm⟩
  | cons e t ih =>
    obtain ⟨m, hm, ht⟩ := run_cons_iff.mp hrun
    rw [shown_cons hm] at hw
    have hone := hshows s e
    cases w with
    | nil => exact ⟨[], List.nil_prefix, rfl⟩
    | cons d w =>
      cases hd : shows s e with
      | nil =>
        rw [hd, List.nil_append] at hw
        obtain ⟨u, hu, hshown⟩ := ih ht hw
        refine ⟨e :: u, List.cons_prefix_cons.mpr ⟨rfl, hu⟩, ?_⟩
        rw [shown_cons hm, hd, List.nil_append, hshown]
      | cons d' ds =>
        obtain rfl : ds = [] := by
          rw [hd, List.length_cons] at hone
          exact List.eq_nil_of_length_eq_zero (by omega)
        rw [hd, List.cons_append, List.nil_append, List.cons_prefix_cons] at hw
        obtain ⟨rfl, hw⟩ := hw
        obtain ⟨u, hu, hshown⟩ := ih ht hw
        refine ⟨e :: u, List.cons_prefix_cons.mpr ⟨rfl, hu⟩, ?_⟩
        rw [shown_cons hm, hd, hshown]
        rfl

/-- What does not depend on the states is read off the trace. -/
theorem shown_label {f : ε → List δ} (hrun : run step s t = some s') :
    shown step (fun _ => f) s t = t.flatMap f := by
  induction t generalizing s with
  | nil => rfl
  | cons e t ih =>
    obtain ⟨m, hm, ht⟩ := run_cons_iff.mp hrun
    rw [shown_cons hm, ih ht, List.flatMap_cons]

theorem shown_flatMap {δ' : Type*} (f : δ → List δ') :
    (shown step shows s t).flatMap f = shown step (fun s e => (shows s e).flatMap f) s t := by
  induction t generalizing s with
  | nil => rfl
  | cons e t ih =>
    rw [shown, shown, List.flatMap_append]
    cases step s e with
    | none => rfl
    | some s' => rw [Option.elim_some, Option.elim_some, ih]

/-- Two ways of looking at a run that agree at each step agree on the whole of it. -/
theorem shown_forall₂ {δ' : Type*} {shows' : σ → ε → List δ'} {R : δ → δ' → Prop}
    (hrun : run step s t = some s')
    (h : ∀ m e m', e ∈ t → step m e = some m' → List.Forall₂ R (shows m e) (shows' m e)) :
    List.Forall₂ R (shown step shows s t) (shown step shows' s t) := by
  induction t generalizing s with
  | nil => exact .nil
  | cons e t ih =>
    obtain ⟨m, hm, ht⟩ := run_cons_iff.mp hrun
    rw [shown_cons hm, shown_cons hm]
    refine List.rel_append (h s e m List.mem_cons_self hm) (ih ht fun n d n' hd => ?_)
    exact h n d n' (List.mem_cons_of_mem _ hd)

end Shown

/-- Each step of the first machine is a run of the second over what that step shows. -/
def Simulates (stepA : σ → ε → Option σ) (stepB : τ → δ → Option τ) (shows : σ → ε → List δ)
    (R : σ → τ → Prop) : Prop :=
  ∀ s e s' a, R s a → stepA s e = some s' → ∃ a', run stepB a (shows s e) = some a' ∧ R s' a'

section Simulation

variable {stepA : σ → ε → Option σ} {stepB : τ → δ → Option τ} {shows : σ → ε → List δ}
  {R : σ → τ → Prop} {s s' : σ} {a : τ} {t : List ε}

/-- The simulation rule: a whole run is a run of the second machine over what it shows. -/
theorem Simulates.run (h : Simulates stepA stepB shows R) (hR : R s a)
    (hrun : run stepA s t = some s') :
    ∃ a', run stepB a (shown stepA shows s t) = some a' ∧ R s' a' := by
  induction t generalizing s a with
  | nil =>
    obtain rfl : s = s' := Option.some.inj hrun
    exact ⟨a, rfl, hR⟩
  | cons e t ih =>
    obtain ⟨m, hm, ht⟩ := run_cons_iff.mp hrun
    obtain ⟨b, hb, hRm⟩ := h s e m a hR hm
    obtain ⟨a', ha', hR'⟩ := ih hRm ht
    refine ⟨a', ?_, hR'⟩
    rw [shown_cons hm]
    exact run_append_iff.mpr ⟨b, hb, ha'⟩

end Simulation

end KernelEngine.Runs
