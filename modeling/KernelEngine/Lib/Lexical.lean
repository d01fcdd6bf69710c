import Mathlib.Algebra.Order.Group.Nat
import Mathlib.Data.List.Basic
import Mathlib.Data.List.Induction
import Mathlib.Logic.Function.Iterate

namespace KernelEngine.Lexical

variable {α : Type*}

/-- One component of a slash-separated path. -/
inductive Seg (α : Type*) where
  | root
  | cur
  | up
  | name (a : α)
  deriving DecidableEq, Repr

/-- A path with `.` and `..` resolved lexically: what is left of the `..` comes
first, and a rooted path has none because `/..` is `/`. -/
structure NormalPath (α : Type*) where
  rooted : Bool
  ups : ℕ
  names : List α
  clamped : rooted = true → ups = 0
  deriving DecidableEq

namespace NormalPath

def empty : NormalPath α := ⟨false, 0, [], fun _ => rfl⟩

def push (n : NormalPath α) : Seg α → NormalPath α
  | .root => ⟨true, 0, [], fun _ => rfl⟩
  | .cur => n
  | .up => match n.names with
    | [] => if n.rooted then n else ⟨false, n.ups + 1, [], by simp⟩
    | _ :: _ => { n with names := n.names.dropLast }
  | .name a => { n with names := n.names ++ [a] }

/-- The components of a normal form, as it would be written. -/
def segs (n : NormalPath α) : List (Seg α) :=
  (if n.rooted then [.root] else []) ++ (List.replicate n.ups .up ++ n.names.map .name)

/-- `base` is a component prefix of `n`. -/
def Within (base n : NormalPath α) : Prop := base.segs <+: n.segs

instance [DecidableEq α] (base n : NormalPath α) : Decidable (Within base n) :=
  inferInstanceAs (Decidable (base.segs <+: n.segs))

def climb (n : NormalPath α) (k : ℕ) : NormalPath α := (fun n => n.push .up)^[k] n

/-- Following a relative normal form from `n`: first its `..`, then its names. -/
def append (n m : NormalPath α) : NormalPath α :=
  { n.climb m.ups with names := (n.climb m.ups).names ++ m.names }

theorem ext_fields {n m : NormalPath α} (hr : n.rooted = m.rooted) (hu : n.ups = m.ups)
    (hn : n.names = m.names) : n = m := by
  cases n
  cases m
  cases hr
  cases hu
  cases hn
  rfl

theorem push_up_of_names {n : NormalPath α} (h : n.names ≠ []) :
    n.push .up = { n with names := n.names.dropLast } := by
  obtain ⟨a, l, hl⟩ := List.exists_cons_of_ne_nil h
  simp only [push, hl]

theorem push_up_of_rooted {n : NormalPath α} (h : n.names = []) (hr : n.rooted = true) :
    n.push .up = n := by
  simp [push, h, hr]

theorem push_up_of_bare {n : NormalPath α} (h : n.names = []) (hr : n.rooted = false) :
    n.push .up = ⟨false, n.ups + 1, [], Bool.noConfusion⟩ := by
  simp [push, h, hr]

@[simp] theorem climb_zero (n : NormalPath α) : n.climb 0 = n := rfl

theorem climb_succ (n : NormalPath α) (k : ℕ) : n.climb (k + 1) = (n.climb k).push .up :=
  Function.iterate_succ_apply' _ _ _

theorem climb_of_le {n : NormalPath α} {k : ℕ} (hk : k ≤ n.names.length) :
    n.climb k = { n with names := n.names.take (n.names.length - k) } := by
  induction k with
  | zero => apply ext_fields <;> simp
  | succ k ih =>
    have hne : n.names.take (n.names.length - k) ≠ [] := by
      intro h
      have := congrArg List.length h
      simp only [List.length_take, List.length_nil] at this
      omega
    rw [climb_succ, ih (by omega), push_up_of_names hne]
    apply ext_fields
    · rfl
    · rfl
    · change (n.names.take (n.names.length - k)).dropLast = n.names.take (n.names.length - (k + 1))
      rw [List.dropLast_eq_take, List.take_take, List.length_take]
      congr 1
      omega

theorem climb_of_lt_rooted {n : NormalPath α} {k : ℕ} (hk : n.names.length ≤ k)
    (hr : n.rooted = true) : n.climb k = { n with names := [] } := by
  induction k, hk using Nat.le_induction with
  | base =>
    rw [climb_of_le le_rfl]
    apply ext_fields <;> simp
  | succ k _ ih =>
    rw [climb_succ, ih]
    exact push_up_of_rooted rfl hr

theorem climb_of_lt_bare {n : NormalPath α} {k : ℕ} (hk : n.names.length ≤ k)
    (hr : n.rooted = false) :
    n.climb k = ⟨false, n.ups + (k - n.names.length), [], by simp⟩ := by
  induction k, hk using Nat.le_induction with
  | base =>
    rw [climb_of_le le_rfl]
    apply ext_fields <;> simp [hr]
  | succ k hk ih =>
    rw [climb_succ, ih, push_up_of_bare rfl rfl]
    apply ext_fields
    · rfl
    · change n.ups + (k - n.names.length) + 1 = n.ups + (k + 1 - n.names.length)
      omega
    · rfl

theorem append_names {n m : NormalPath α} :
    (n.append m).names = (n.climb m.ups).names ++ m.names := rfl

/-- Following a path one component further extends what was followed so far. -/
theorem push_append (n m : NormalPath α) (hm : m.rooted = false) (s : Seg α) (hs : s ≠ .root) :
    (n.append m).push s = n.append (m.push s) := by
  cases s with
  | root => exact absurd rfl hs
  | cur => rfl
  | name a =>
    apply ext_fields
    · rfl
    · rfl
    · exact List.append_assoc _ _ _
  | up =>
    by_cases hn : m.names = []
    -- one more step of the climb
    · have hsame : n.append m = n.climb m.ups := by
        apply ext_fields
        · rfl
        · rfl
        · simp [append_names, hn]
      rw [hsame, push_up_of_bare hn hm, ← climb_succ]
      apply ext_fields
      · rfl
      · rfl
      · simp [append_names]
    -- the last name of `m` is cancelled
    · have hne : (n.append m).names ≠ [] := by simp [append_names, hn]
      rw [push_up_of_names hne, push_up_of_names hn]
      apply ext_fields
      · rfl
      · rfl
      · exact List.dropLast_append_of_ne_nil hn

theorem push_rooted_of_ne {m : NormalPath α} (hm : m.rooted = false) {s : Seg α} (hs : s ≠ .root) :
    (m.push s).rooted = false := by
  cases s with
  | root => exact absurd rfl hs
  | cur => exact hm
  | name a => exact hm
  | up =>
    by_cases hn : m.names = []
    · rw [push_up_of_bare hn hm]
    · rw [push_up_of_names hn]
      exact hm

end NormalPath

open NormalPath

def resolve (p : List (Seg α)) : NormalPath α := p.foldl push empty

theorem resolve_concat (p : List (Seg α)) (s : Seg α) :
    resolve (p ++ [s]) = (resolve p).push s := by
  simp [resolve]

theorem resolve_rooted_of_not_mem {q : List (Seg α)} (hq : Seg.root ∉ q) :
    (resolve q).rooted = false := by
  induction q using List.reverseRecOn with
  | nil => rfl
  | append_singleton q s ih =>
    rw [resolve_concat]
    exact push_rooted_of_ne (ih (fun h => hq (List.mem_append_left _ h)))
      (fun h => hq (by simp [h]))

/-- A relative continuation acts on the base through its own normal form. -/
theorem resolve_append (p q : List (Seg α)) (hq : Seg.root ∉ q) :
    resolve (p ++ q) = (resolve p).append (resolve q) := by
  induction q using List.reverseRecOn with
  | nil =>
    apply ext_fields <;> simp [NormalPath.append, resolve, NormalPath.empty]
  | append_singleton q s ih =>
    have hq' : Seg.root ∉ q := fun h => hq (List.mem_append_left _ h)
    have hs : s ≠ Seg.root := fun h => hq (by simp [h])
    rw [← List.append_assoc, resolve_concat, resolve_concat, ih hq',
      push_append _ _ (resolve_rooted_of_not_mem hq') s hs]

/-- Climbing out of `n` by the `..` of `m` and following its names ends inside
`n`: the names lead back through the directories that were left. -/
def Reenters (n m : NormalPath α) : Prop :=
  if m.ups ≤ n.names.length then n.names.drop (n.names.length - m.ups) <+: m.names
  else n.names = [] ∨ (n.rooted = true ∧ n.names <+: m.names)

instance [DecidableEq α] (n m : NormalPath α) : Decidable (Reenters n m) := by
  unfold Reenters
  infer_instance

theorem name_injective : Function.Injective (Seg.name (α := α)) := fun _ _ h => Seg.name.inj h

theorem within_append_iff (n m : NormalPath α) : n.Within (n.append m) ↔ Reenters n m := by
  unfold Reenters
  split_ifs with hk
  -- the climb stays among the names of `n`
  · have hsegs : (n.append m).segs = (if n.rooted then [.root] else []) ++
        (List.replicate n.ups .up ++
          (n.names.take (n.names.length - m.ups) ++ m.names).map .name) := by
      simp only [segs, NormalPath.append, climb_of_le hk]
    rw [Within, hsegs, segs, List.prefix_append_right_inj, List.prefix_append_right_inj,
      List.prefix_map_iff_of_injective name_injective]
    nth_rewrite 1 [← List.take_append_drop (n.names.length - m.ups) n.names]
    rw [List.prefix_append_right_inj]
  · have hlt : n.names.length ≤ m.ups := by omega
    cases hr : n.rooted with
    | true =>
      -- the climb ends at the root
      have hsegs : (n.append m).segs = [.root] ++ (List.replicate n.ups .up ++
          m.names.map .name) := by
        simp [segs, NormalPath.append, climb_of_lt_rooted hlt hr, hr]
      rw [Within, hsegs, segs, if_pos hr, List.prefix_append_right_inj,
        List.prefix_append_right_inj, List.prefix_map_iff_of_injective name_injective]
      constructor
      · intro h
        exact Or.inr ⟨rfl, h⟩
      · rintro (h | ⟨-, h⟩)
        · simp [h]
        · exact h
    | false =>
      -- the climb leaves `n` by at least one `..`, where `n` has a name or nothing
      obtain ⟨d, hd⟩ : ∃ d, m.ups - n.names.length = d + 1 :=
        ⟨m.ups - n.names.length - 1, by omega⟩
      have hsegs : (n.append m).segs = List.replicate n.ups .up ++
          (.up :: (List.replicate d .up ++ m.names.map .name)) := by
        simp [segs, NormalPath.append, climb_of_lt_bare hlt hr, hd, List.replicate_add,
          List.replicate_succ]
      have hbase : n.segs = List.replicate n.ups .up ++ n.names.map .name := by
        simp [segs, hr]
      rw [Within, hsegs, hbase, List.prefix_append_right_inj]
      cases hn : n.names with
      | nil => simp
      | cons a l => simp [List.cons_prefix_cons]

end KernelEngine.Lexical
