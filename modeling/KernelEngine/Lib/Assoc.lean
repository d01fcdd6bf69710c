import Mathlib.Data.List.AList
import Mathlib.Data.List.Induction

namespace KernelEngine.Assoc

variable {ι α β : Type} [DecidableEq α]

/-- The map after one insertion for each item of a list, from first to last. -/
def fill (key : ι → α) (val : ι → β) (m : AList fun _ : α => β) (l : List ι) :
    AList fun _ : α => β :=
  l.foldl (fun m i => m.insert (key i) (val i)) m

/-- The last item with a given key. -/
def last (key : ι → α) (k : α) (l : List ι) : Option ι := l.reverse.find? fun i => key i = k

variable {key : ι → α} {val : ι → β} {k : α} {l pre post : List ι} {i : ι} {p : ι → Bool}

@[simp] theorem last_nil : last key k [] = none := rfl

theorem last_append (pre post : List ι) :
    last key k (pre ++ post) = (last key k post).or (last key k pre) := by
  rw [last, List.reverse_append, List.find?_append]
  rfl

theorem last_cons (i : ι) (l : List ι) :
    last key k (i :: l) = (last key k l).or (if key i = k then some i else none) := by
  have hcons : i :: l = [i] ++ l := rfl
  rw [hcons, last_append]
  congr 1
  by_cases h : key i = k <;> simp [last, h]

theorem last_concat (l : List ι) (i : ι) :
    last key k (l ++ [i]) = if key i = k then some i else last key k l := by
  rw [last_append, last_cons, last_nil, Option.none_or]
  split_ifs <;> rfl

theorem last_map {κ : Type} (f : κ → ι) (l : List κ) :
    last key k (l.map f) = (last (fun x => key (f x)) k l).map f := by
  rw [last, ← List.map_reverse, List.find?_map]
  rfl

theorem last_eq_none_iff : last key k l = none ↔ ∀ i ∈ l, key i ≠ k := by
  simp [last]

/-- An item is the last one with its key when no item behind it has that key. -/
theorem last_eq_some_iff : last key k l = some i ↔
    key i = k ∧ ∃ pre post, l = pre ++ i :: post ∧ ∀ j ∈ post, key j ≠ k := by
  rw [last, List.find?_eq_some_iff_append]
  simp only [decide_eq_true_eq, Bool.not_eq_true', decide_eq_false_iff_not]
  refine and_congr_right fun _ => ⟨?_, ?_⟩
  · rintro ⟨as, bs, heq, h⟩
    refine ⟨bs.reverse, as.reverse, ?_, fun j hj => h j (List.mem_reverse.mp hj)⟩
    have hl := congrArg List.reverse heq
    simpa using hl
  · rintro ⟨pre, post, rfl, h⟩
    exact ⟨post.reverse, pre.reverse, by simp, fun j hj => h j (List.mem_reverse.mp hj)⟩

theorem mem_of_last (h : last key k l = some i) : i ∈ l := by
  obtain ⟨-, pre, post, rfl, -⟩ := last_eq_some_iff.mp h
  simp

/-- Where the keys are distinct, the only item with a key is the last one. -/
theorem last_eq_some_iff_mem (hl : (l.map key).Nodup) :
    last key k l = some i ↔ i ∈ l ∧ key i = k := by
  refine ⟨fun h => ⟨mem_of_last h, (last_eq_some_iff.mp h).1⟩, ?_⟩
  rintro ⟨hi, hk⟩
  obtain ⟨pre, post, rfl⟩ := List.append_of_mem hi
  refine last_eq_some_iff.mpr ⟨hk, pre, post, rfl, fun j hj heq => ?_⟩
  rw [List.map_append, List.map_cons] at hl
  have hnot := (List.nodup_cons.mp (List.nodup_append.mp hl).2.1).1
  exact hnot (List.mem_map.mpr ⟨j, hj, heq.trans hk.symm⟩)

theorem map_last_eq_some_iff_mem (hl : (l.map key).Nodup) {v : β} :
    (last key k l).map val = some v ↔ (k, v) ∈ l.map fun i => (key i, val i) := by
  simp only [Option.map_eq_some_iff, last_eq_some_iff_mem hl, List.mem_map, Prod.mk.injEq,
    and_assoc]

/-- The last insertion under a key is the one that counts. -/
theorem lookup_fill (m : AList fun _ : α => β) (l : List ι) :
    (fill key val m l).lookup k = ((last key k l).map val).or (m.lookup k) := by
  induction l using List.reverseRecOn with
  | nil => rfl
  | append_singleton l i ih =>
    rw [fill, List.foldl_append, ← fill, last_concat]
    change ((fill key val m l).insert (key i) (val i)).lookup k = _
    split_ifs with hk
    · rw [← hk, AList.lookup_insert]
      rfl
    · rw [AList.lookup_insert_ne (Ne.symm hk), ih]

theorem lookup_fill_empty (l : List ι) :
    (fill key val ∅ l).lookup k = (last key k l).map val := by
  rw [lookup_fill, AList.lookup_empty, Option.or_none]

theorem mem_fill (m : AList fun _ : α => β) (l : List ι) :
    k ∈ fill key val m l ↔ k ∈ m ∨ ∃ i ∈ l, key i = k := by
  rw [← AList.lookup_isSome, lookup_fill, Option.isSome_or, Bool.or_eq_true, Option.isSome_map,
    AList.lookup_isSome, ← Option.ne_none_iff_isSome, ne_eq, last_eq_none_iff]
  push Not
  exact or_comm

theorem fill_flatMap {κ : Type} (f : κ → List ι) (m : AList fun _ : α => β) (l : List κ) :
    fill key val m (l.flatMap f) = l.foldl (fun m x => fill key val m (f x)) m :=
  List.foldl_flatMap

theorem last_filter_of_last (h : last key k l = some i) (hi : p i = true) :
    last key k (l.filter p) = some i := by
  obtain ⟨hk, pre, post, rfl, hpost⟩ := last_eq_some_iff.mp h
  refine last_eq_some_iff.mpr ⟨hk, pre.filter p, post.filter p, ?_, ?_⟩
  · rw [List.filter_append, List.filter_cons_of_pos hi]
  · exact fun j hj => hpost j (List.mem_of_mem_filter hj)

theorem last_filter (h : ∀ i ∈ l, key i = k → p i = true) :
    last key k (l.filter p) = last key k l := by
  cases hl : last key k l with
  | none =>
    rw [last_eq_none_iff] at hl ⊢
    exact fun j hj => hl j (List.mem_of_mem_filter hj)
  | some i => exact last_filter_of_last hl (h i (mem_of_last hl) (last_eq_some_iff.mp hl).1)

/-- Dropping items changes nothing under a key exactly when the item that counts there is
kept, or the one that counts in its place has the same value. -/
theorem map_last_filter_iff :
    (last key k l).map val = (last key k (l.filter p)).map val ↔
      ∀ i, last key k l = some i → p i = false →
        (last key k (l.filter p)).map val = some (val i) := by
  cases hl : last key k l with
  | none =>
    have hnone : last key k (l.filter p) = none := by
      rw [last_eq_none_iff] at hl ⊢
      exact fun j hj => hl j (List.mem_of_mem_filter hj)
    simp [hnone]
  | some i =>
    cases hi : p i with
    | true => simp [last_filter_of_last hl hi, hi]
    | false =>
      refine ⟨fun h j hj _ => ?_, fun h => (h i rfl hi).symm⟩
      rw [← h, Option.some.inj hj]
      rfl

end KernelEngine.Assoc
