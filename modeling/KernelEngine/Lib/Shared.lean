import KernelEngine.Lib.Runs
import Mathlib.Algebra.BigOperators.Group.List.Basic

namespace KernelEngine.Shared
open Runs

variable {M : Type*} [AddCommMonoid M]

/-- A thread that adds to a shared total: what it has earned in all, and the parts of that
which it has still to add, one at a time. -/
structure Account (M : Type*) where
  earned : M
  owed : List M

structure State (M : Type*) where
  accounts : List (Account M)
  total : M

/-- A thread that owes nothing earns something, or one pays a part of what it owes. -/
inductive Event (M : Type*) where
  | earn (thread : ℕ) (parts : List M)
  | pay (thread : ℕ)

def start (threads : ℕ) : State M := ⟨List.replicate threads ⟨0, []⟩, 0⟩

def step (s : State M) : Event M → Option (State M)
  | .earn thread parts =>
    match s.accounts[thread]? with
    | some ⟨earned, []⟩ =>
      some { s with accounts := s.accounts.set thread ⟨earned + parts.sum, parts⟩ }
    | _ => none
  | .pay thread =>
    match s.accounts[thread]? with
    | some ⟨earned, part :: rest⟩ =>
      some ⟨s.accounts.set thread ⟨earned, rest⟩, s.total + part⟩
    | _ => none

/-- Nothing is lost: the total and what is owed make up what was earned. -/
def Balanced (s : State M) : Prop :=
  s.total + (s.accounts.map fun a => a.owed.sum).sum = (s.accounts.map Account.earned).sum

section Lemmas

variable {α : Type*} {s s' : State M} {e : Event M} {t : List (Event M)}

/-- A sum over a list, seen at one of its places. -/
theorem sum_map_set {l : List α} {i : ℕ} {a : α} (h : l[i]? = some a) (f : α → M) :
    ∃ rest, (l.map f).sum = rest + f a ∧ ∀ b, ((l.set i b).map f).sum = rest + f b := by
  obtain ⟨hi, rfl⟩ := List.getElem?_eq_some_iff.mp h
  have hset (b : α) : ((l.set i b).map f).sum =
      ((l.map f).take i).sum + ((l.map f).drop (i + 1)).sum + f b := by
    rw [List.map_set, List.sum_set, if_pos (by rwa [List.length_map]), add_right_comm]
  refine ⟨_, ?_, hset⟩
  rw [← hset, List.set_getElem_self]

theorem balanced_start (threads : ℕ) : Balanced (start threads : State M) := by
  simp [Balanced, start]

theorem balanced_step (h : Balanced s) (hs : step s e = some s') : Balanced s' := by
  unfold Balanced at h ⊢
  cases e with
  | earn thread parts =>
    simp only [step] at hs
    split at hs
    case h_1 earned haccount =>
      obtain rfl := Option.some.inj hs
      obtain ⟨owed, howed, hset⟩ := sum_map_set haccount fun a => a.owed.sum
      obtain ⟨all, hall, hset'⟩ := sum_map_set haccount Account.earned
      rw [howed, hall, List.sum_nil, add_zero] at h
      rw [hset, hset', ← add_assoc, h, add_assoc]
    case h_2 => cases hs
  | pay thread =>
    simp only [step] at hs
    split at hs
    case h_1 earned part rest haccount =>
      obtain rfl := Option.some.inj hs
      obtain ⟨owed, howed, hset⟩ := sum_map_set haccount fun a => a.owed.sum
      obtain ⟨all, hall, hset'⟩ := sum_map_set haccount Account.earned
      rw [howed, hall, List.sum_cons] at h
      rw [hset, hset', ← h, add_assoc, add_left_comm part]
    case h_2 => cases hs

theorem balanced_run {threads : ℕ} (hrun : run step (start threads) t = some s) : Balanced s :=
  run_invariant_of_step (fun _ _ _ h hs => balanced_step h hs) (balanced_start threads) hrun

/-- In whatever order the threads have added: when all is paid the total is what was earned. -/
theorem total_of_settled {threads : ℕ} (hrun : run step (start threads) t = some s)
    (hsettled : ∀ a ∈ s.accounts, a.owed = []) :
    s.total = (s.accounts.map Account.earned).sum := by
  have hnone : (s.accounts.map fun a => a.owed.sum).sum = 0 := by
    refine List.sum_eq_zero fun x hx => ?_
    obtain ⟨a, ha, rfl⟩ := List.mem_map.mp hx
    rw [hsettled a ha, List.sum_nil]
  have hbalanced := balanced_run hrun
  rwa [Balanced, hnone, add_zero] at hbalanced

end Lemmas

end KernelEngine.Shared
