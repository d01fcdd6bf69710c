import Mathlib.Data.List.Basic

namespace KernelEngine.Codec

/-- A decoder takes a value off the front of its input. -/
abbrev Decoder (σ α : Type*) := List σ → Option (α × List σ)

variable {σ α β : Type*}

/-- A word is read as a value, whatever follows it. -/
def Reads (dec : Decoder σ α) (w : List σ) (a : α) : Prop :=
  ∀ rest, dec (w ++ rest) = some (a, rest)

namespace Decoder

/-- One decoder behind another. -/
def bind (dec : Decoder σ α) (f : α → Decoder σ β) : Decoder σ β := fun s =>
  (dec s).bind fun (a, s) => f a s

/-- A value computed from what was read, where that succeeds. -/
def map? (dec : Decoder σ α) (f : α → Option β) : Decoder σ β := fun s =>
  (dec s).bind fun (a, s) => (f a).map fun b => (b, s)

/-- Exactly `n` symbols. -/
def exactly (n : ℕ) : Decoder σ (List σ) := fun s =>
  if n ≤ s.length then some (s.take n, s.drop n) else none

section Delimited

variable [DecidableEq σ]

/-- Everything up to the first occurrence of a delimiter, which is dropped. -/
def upTo (stop : List σ) : Decoder σ (List σ)
  | [] => if stop = [] then some ([], []) else none
  | c :: s =>
    if stop <+: c :: s then some ([], (c :: s).drop stop.length)
    else (upTo stop s).map fun (w, rest) => (c :: w, rest)

end Delimited

/-- Values up to one that ends the block, with a bound on their number. -/
def blockWithin (dec : Decoder σ α) (isEnd : α → Bool) : ℕ → Decoder σ (List α)
  | 0, _ => none
  | n + 1, s => (dec s).bind fun (a, s) =>
    if isEnd a then some ([], s)
    else (blockWithin dec isEnd n s).map fun (as, rest) => (a :: as, rest)

/-- Values up to one that ends the block. The input has no more of them than symbols. -/
def block (dec : Decoder σ α) (isEnd : α → Bool) : Decoder σ (List α) := fun s =>
  blockWithin dec isEnd s.length s

def allWithin (dec : Decoder σ α) : ℕ → List σ → Option (List α)
  | _, [] => some []
  | 0, _ :: _ => none
  | n + 1, s@(_ :: _) => (dec s).bind fun (a, s) => (allWithin dec n s).map (a :: ·)

/-- Values to the end of the input. -/
def all (dec : Decoder σ α) (s : List σ) : Option (List α) := allWithin dec s.length s

end Decoder

open Decoder

variable {dec : Decoder σ α} {w v : List σ} {a : α} {b : β}

theorem Reads.bind {f : α → Decoder σ β} (h : Reads dec w a) (hf : Reads (f a) v b) :
    Reads (dec.bind f) (w ++ v) b := by
  intro rest
  rw [List.append_assoc, Decoder.bind, h]
  exact hf rest

theorem Reads.map? {f : α → Option β} (h : Reads dec w a) (hf : f a = some b) :
    Reads (dec.map? f) w b := by
  intro rest
  rw [Decoder.map?, h, Option.bind_some]
  dsimp only
  rw [hf]
  rfl

theorem reads_exactly (w : List σ) : Reads (exactly w.length) w w := by
  intro rest
  rw [exactly, if_pos (by rw [List.length_append]; omega), List.take_left', List.drop_left']
  all_goals rfl

/-- A word without the symbol its delimiter begins with is read up to that. -/
theorem reads_upTo [DecidableEq σ] {c : σ} {stop : List σ} (hw : c ∉ w) :
    Reads (upTo (c :: stop)) (w ++ c :: stop) w := by
  intro rest
  induction w with
  | nil =>
    rw [List.nil_append, List.cons_append, upTo, ← List.cons_append,
      if_pos (List.prefix_append _ _), List.drop_left' rfl]
  | cons d w ih =>
    have hne : ¬ c :: stop <+: d :: (w ++ c :: stop ++ rest) := by
      rw [List.cons_prefix_cons]
      rintro ⟨rfl, -⟩
      exact hw List.mem_cons_self
    rw [List.cons_append, List.cons_append, upTo, if_neg hne,
      ih fun hmem => hw (List.mem_cons_of_mem _ hmem)]
    rfl

theorem length_le_length_flatMap {l : List (List σ × α)} (hl : ∀ p ∈ l, p.1 ≠ []) :
    l.length ≤ (l.flatMap Prod.fst).length := by
  induction l with
  | nil => exact Nat.zero_le _
  | cons p l ih =>
    have hp := List.length_pos_iff.mpr (hl p List.mem_cons_self)
    have hrest := ih fun q hq => hl q (List.mem_cons_of_mem _ hq)
    rw [List.flatMap_cons, List.length_append, List.length_cons]
    omega

/-- A block of words is read, and the word that ends it dropped. -/
theorem reads_blockWithin {isEnd : α → Bool} {l : List (List σ × α)}
    (hl : ∀ p ∈ l, Reads dec p.1 p.2 ∧ isEnd p.2 = false) (hw : Reads dec w a)
    (ha : isEnd a = true) {n : ℕ} (hn : l.length < n) :
    Reads (blockWithin dec isEnd n) (l.flatMap Prod.fst ++ w) (l.map Prod.snd) := by
  intro rest
  induction l generalizing n with
  | nil =>
    obtain ⟨n, rfl⟩ := Nat.exists_eq_add_of_lt hn
    rw [List.flatMap_nil, List.nil_append, blockWithin, hw, Option.bind_some]
    exact if_pos ha
  | cons p l ih =>
    obtain ⟨n, rfl⟩ : ∃ m, n = m + 1 := ⟨n - 1, by omega⟩
    obtain ⟨hp, hend⟩ := hl p List.mem_cons_self
    have hrest := ih (fun q hq => hl q (List.mem_cons_of_mem _ hq)) (Nat.lt_of_succ_lt_succ hn)
    rw [List.flatMap_cons, List.append_assoc, List.append_assoc, blockWithin, hp,
      Option.bind_some]
    dsimp only
    rw [hend, if_neg Bool.false_ne_true, ← List.append_assoc, hrest]
    rfl

theorem reads_block {isEnd : α → Bool} {l : List (List σ × α)}
    (hl : ∀ p ∈ l, (Reads dec p.1 p.2 ∧ isEnd p.2 = false) ∧ p.1 ≠ []) (hw : Reads dec w a)
    (ha : isEnd a = true) (hne : w ≠ []) :
    Reads (block dec isEnd) (l.flatMap Prod.fst ++ w) (l.map Prod.snd) := by
  intro rest
  have hlen := length_le_length_flatMap fun p hp => (hl p hp).2
  have hpos := List.length_pos_iff.mpr hne
  exact reads_blockWithin (fun p hp => (hl p hp).1) hw ha
    (by simp only [List.length_append]; omega) rest

theorem allWithin_flatMap {l : List (List σ × α)} (hl : ∀ p ∈ l, Reads dec p.1 p.2 ∧ p.1 ≠ [])
    {n : ℕ} (hn : l.length ≤ n) : allWithin dec n (l.flatMap Prod.fst) = some (l.map Prod.snd) := by
  induction l generalizing n with
  | nil => cases n <;> rfl
  | cons p l ih =>
    obtain ⟨n, rfl⟩ : ∃ m, n = m + 1 := ⟨n - 1, by rw [List.length_cons] at hn; omega⟩
    obtain ⟨hp, hne⟩ := hl p List.mem_cons_self
    have hrest := ih (fun q hq => hl q (List.mem_cons_of_mem _ hq)) (Nat.le_of_succ_le_succ hn)
    obtain ⟨c, w, hcons⟩ := List.exists_cons_of_ne_nil hne
    have hread := hp (l.flatMap Prod.fst)
    rw [hcons, List.cons_append] at hread
    rw [List.flatMap_cons, hcons, List.cons_append, allWithin, hread, Option.bind_some]
    dsimp only
    rw [hrest]
    rfl

/-- Words one after the other are read as their values. -/
theorem all_flatMap {l : List (List σ × α)} (hl : ∀ p ∈ l, Reads dec p.1 p.2 ∧ p.1 ≠ []) :
    all dec (l.flatMap Prod.fst) = some (l.map Prod.snd) :=
  allWithin_flatMap hl (length_le_length_flatMap fun p hp => (hl p hp).2)

end KernelEngine.Codec
