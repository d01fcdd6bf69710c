import KernelEngine.Http.Urlencoding

namespace KernelEngine.Decoding
open Rust Http Percent Urlencoding

theorem ascii_of_unreserved {c : Char} (h : unreserved c = true) :
    c ≠ '%' ∧ c ≠ '+' ∧ c.toNat < 128 := by
  refine ⟨?_, ?_, ?_⟩
  · rintro rfl
    exact absurd h (by decide)
  · rintro rfl
    exact absurd h (by decide)
  · simp only [unreserved, Bool.or_eq_true, beq_iff_eq] at h
    obtain (((h | rfl) | rfl) | rfl) | rfl := h
    · exact isAlphanum_lt h
    all_goals decide

/-- Exactly the ASCII texts come back from their encodings: every byte is decoded into a
character of its own, and every other character has more than one byte. -/
theorem decodes_iff_ascii (s : Str) :
    (∀ e, FormEncodes unreserved s e → decode e = some s) ↔ ∀ c ∈ s, c.toNat < 128 := by
  rw [← latin1_bytes_eq_self_iff]
  constructor
  · intro h
    have hself := h _ (formEncodes_encode unreserved s)
    rw [decode_formEncodes (fun _ => ascii_of_unreserved) (formEncodes_encode _ _)] at hself
    exact Option.some.inj hself
  · intro h e he
    rw [decode_formEncodes (fun _ => ascii_of_unreserved) he, h]

theorem accent_garbled : encode unreserved "é".toList = "%C3%A9".toList ∧
    decode "%C3%A9".toList = some "Ã©".toList ∧
      ¬ ∀ e, FormEncodes unreserved "é".toList e → decode e = some "é".toList := by
  have hencode : encode unreserved "é".toList = "%C3%A9".toList := by decide +kernel
  have hdecode : decode "%C3%A9".toList = some "Ã©".toList := by decide +kernel
  refine ⟨hencode, hdecode, fun h => ?_⟩
  have hself := h _ (formEncodes_encode unreserved "é".toList)
  rw [hencode, hdecode] at hself
  exact absurd hself (by decide)

/-- A text is judged by its grammar exactly when none of its escapes is a plus sign and a
digit, or when another one is wrong anyway. -/
theorem accepts_iff_no_plus (s : Str) : ((decode s).isSome ↔ WellFormed s) ↔
    (∀ e ∈ escapes s, ¬ IsPlusPair e) ∨ ∃ e ∈ escapes s, ¬ IsHexPair e ∧ ¬ IsPlusPair e := by
  rw [decode_isSome]
  by_cases hbad : ∃ e ∈ escapes s, ¬ IsHexPair e ∧ ¬ IsPlusPair e
  · obtain ⟨e, he, hhex, hplus⟩ := hbad
    refine iff_of_true (iff_of_false (fun h => ?_) fun h => hhex (h e he))
      (Or.inr ⟨e, he, hhex, hplus⟩)
    exact (h e he).elim hhex hplus
  · have hall : ∀ e ∈ escapes s, IsHexPair e ∨ IsPlusPair e := by
      intro e he
      by_contra h
      exact hbad ⟨e, he, not_or.mp h⟩
    rw [or_iff_left hbad, iff_true_intro hall, true_iff]
    constructor
    · exact fun h e he => not_isPlusPair_of_isHexPair (h e he)
    · exact fun h e he => (hall e he).resolve_right (h e he)

theorem plus_accepted : decode "%+A".toList = some "\n".toList ∧ ¬ WellFormed "%+A".toList ∧
    ¬ ((decode "%+A".toList).isSome ↔ WellFormed "%+A".toList) := by
  have hplus : ['+', 'A'] ∈ escapes "%+A".toList := by decide
  have hnot : ¬ WellFormed "%+A".toList := fun h =>
    not_isPlusPair_of_isHexPair (h _ hplus) ⟨'A', rfl, by decide⟩
  exact ⟨by decide, hnot, fun h => hnot (h.mp (by decide))⟩

end KernelEngine.Decoding
