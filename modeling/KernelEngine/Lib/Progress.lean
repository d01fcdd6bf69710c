import KernelEngine.Lib.Runs
import Mathlib.Algebra.BigOperators.Group.List.Basic
import Mathlib.Algebra.Ring.Nat

namespace KernelEngine.Runs

variable {σ ε : Type*} {step : σ → ε → Option σ} {P : σ → ε → σ → Prop}
  {s s' : σ} {t : List ε}

/-- The ranking rule: where each step is paid for by a fall of the rank or by what its label
adds, so is the whole run. -/
theorem run_rank (rank : σ → ℕ) (cost gain : ε → ℕ)
    (hstep : ∀ s e s', step s e = some s' → P s e s' → rank s' + cost e ≤ rank s + gain e)
    (hP : Along step P s t) (hrun : run step s t = some s') :
    rank s' + (t.map cost).sum ≤ rank s + (t.map gain).sum := by
  induction t generalizing s with
  | nil =>
    obtain rfl : s = s' := Option.some.inj hrun
    exact Nat.le_refl _
  | cons e t ih =>
    obtain ⟨m, hm, ht⟩ := run_cons_iff.mp hrun
    obtain ⟨he, hrest⟩ := hP m hm
    have hfirst := hstep s e m hm he
    have hlater := ih hrest ht
    rw [List.map_cons, List.map_cons, List.sum_cons, List.sum_cons]
    omega

/-- Steps that cost one each are counted. -/
theorem sum_toNat_eq_countP (p : ε → Bool) (t : List ε) :
    (t.map fun e => (p e).toNat).sum = t.countP p := by
  induction t with
  | nil => rfl
  | cons e t ih =>
    rw [List.map_cons, List.sum_cons, ih, List.countP_cons, Nat.add_comm]
    cases p e <;> rfl

end KernelEngine.Runs
