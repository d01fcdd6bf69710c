import KernelEngine.Lib.Percent
import KernelEngine.Rust.Number

namespace KernelEngine.Http
open Rust Percent

namespace Urlencoding

/-- `urlencoding::decode`. -/
def decode : Str → Option Str
  | [] => some []
  | ch :: chars =>
    if ch = '%' then match chars with
      | h :: l :: chars => do
        let byte ← fromStrRadix 256 16 [h, l]
        -- `byte as char`: the character with this number, whatever its neighbours are
        return Char.ofNat byte :: (← decode chars)
      | _ => none
    else if ch = '+' then (decode chars).map (' ' :: ·)
    else (decode chars).map (ch :: ·)

/-- Each byte as a character of its own. -/
def latin1 (bs : Bytes) : Str := bs.map fun b => Char.ofNat b.toNat

/-- What `u8::from_str_radix` takes besides two hexadecimal digits. -/
def IsPlusPair (e : Str) : Prop := ∃ l, e = ['+', l] ∧ (hexValue l).isSome

section Decode

variable {keep : Char → Bool} {h l : Char} {s w chars : Str} {bs : Bytes}

theorem toDigit_sixteen (c : Char) : toDigit 16 c = hexValue c := by
  have hle (a b : Char) : a ≤ b ↔ a.toNat ≤ b.toNat := UInt32.le_iff_toNat_le
  have h0 : '0'.toNat = 48 := rfl
  have h9 : '9'.toNat = 57 := rfl
  have ha : 'a'.toNat = 97 := rfl
  have hf : 'f'.toNat = 102 := rfl
  have hz : 'z'.toNat = 122 := rfl
  have hA : 'A'.toNat = 65 := rfl
  have hF : 'F'.toNat = 70 := rfl
  have hZ : 'Z'.toNat = 90 := rfl
  simp only [toDigit, hexValue, hle, h0, h9, ha, hf, hz, hA, hF, hZ]
  split_ifs <;> first | omega | rfl

theorem lt_of_hexValue {n : ℕ} (hh : hexValue h = some n) : n < 16 :=
  toDigit_lt ((toDigit_sixteen h).trans hh)

theorem fromStrRadix_pair {a b : ℕ} (hh : hexValue h = some a) (hl : hexValue l = some b) :
    fromStrRadix 256 16 [h, l] = some (a * 16 + b) := by
  have hplus : h ≠ '+' := by
    rintro rfl
    cases hh
  have ha := lt_of_hexValue hh
  have hb := lt_of_hexValue hl
  have hlt : a * 16 + b < 256 := by omega
  simp [fromStrRadix, hplus, digitsFrom, toDigit_sixteen, hh, hl, hlt]

theorem fromStrRadix_plus (l : Char) : fromStrRadix 256 16 ['+', l] = hexValue l := by
  cases hl : hexValue l with
  | none => simp [fromStrRadix, digitsFrom, toDigit_sixteen, hl]
  | some b =>
    have hb := lt_of_hexValue hl
    have hlt : b < 256 := by omega
    simp [fromStrRadix, digitsFrom, toDigit_sixteen, hl, hlt]

theorem isHexPair_iff : IsHexPair [h, l] ↔ (hexValue h).isSome ∧ (hexValue l).isSome := by
  simp [IsHexPair]

theorem fromStrRadix_pair_isSome :
    (fromStrRadix 256 16 [h, l]).isSome ↔ IsHexPair [h, l] ∨ IsPlusPair [h, l] := by
  by_cases hplus : h = '+'
  · subst hplus
    rw [fromStrRadix_plus, isHexPair_iff]
    have hnone : hexValue '+' = none := by decide
    simp [IsPlusPair, hnone]
  · rw [isHexPair_iff]
    cases hh : hexValue h with
    | none => simp [fromStrRadix, hplus, digitsFrom, toDigit_sixteen, hh, IsPlusPair]
    | some a =>
      cases hl : hexValue l with
      | none => simp [fromStrRadix, hplus, digitsFrom, toDigit_sixteen, hh, hl, IsPlusPair]
      | some b => simp [fromStrRadix_pair hh hl]

theorem decode_escape (h l : Char) (chars : Str) : decode ('%' :: h :: l :: chars) =
    (fromStrRadix 256 16 [h, l]).bind fun byte => (decode chars).map (Char.ofNat byte :: ·) := by
  rw [decode.eq_def]
  dsimp only
  rw [if_pos rfl]
  cases fromStrRadix 256 16 [h, l] with
  | none => rfl
  | some byte => cases decode chars <;> rfl

theorem decode_truncated (hshort : ∀ h l rest, chars ≠ h :: l :: rest) :
    decode ('%' :: chars) = none := by
  rw [decode.eq_def]
  dsimp only
  rw [if_pos rfl]
  split
  · exact absurd rfl (hshort _ _ _)
  · rfl

theorem decode_plus (chars : Str) : decode ('+' :: chars) = (decode chars).map (' ' :: ·) := by
  rw [decode.eq_def]
  rfl

theorem decode_char {ch : Char} (hpercent : ch ≠ '%') (hplus : ch ≠ '+') (chars : Str) :
    decode (ch :: chars) = (decode chars).map (ch :: ·) := by
  rw [decode.eq_def]
  dsimp only
  rw [if_neg hpercent, if_neg hplus]

theorem not_isPlusPair_of_isHexPair {e : Str} (h : IsHexPair e) :
    ¬ IsPlusPair e := by
  obtain ⟨h, l, rfl, hh, -⟩ := h
  rintro ⟨l', heq, -⟩
  obtain ⟨rfl, -⟩ := List.cons.inj heq
  exact absurd hh (by decide)

/-- Which texts are decoded at all. -/
theorem decode_isSome (s : Str) :
    (decode s).isSome ↔ ∀ e ∈ escapes s, IsHexPair e ∨ IsPlusPair e := by
  fun_induction escapes s with
  | case1 => simp [decode]
  | case2 h l chars ih =>
    rw [List.forall_mem_cons, ← ih, ← fromStrRadix_pair_isSome, decode_escape]
    cases fromStrRadix 256 16 [h, l] <;> simp
  | case3 chars hshort =>
    have hpair : ¬ (IsHexPair chars ∨ IsPlusPair chars) := by
      rintro (⟨h, l, rfl, -⟩ | ⟨l, rfl, -⟩)
      · exact hshort _ _ _ rfl
      · exact hshort _ _ _ rfl
    rw [decode_truncated hshort]
    simp [hpair]
  | case4 c chars hc ih =>
    by_cases hplus : c = '+'
    · rw [hplus, decode_plus, ← ih, Option.isSome_map]
    · rw [decode_char hc hplus, ← ih, Option.isSome_map]

theorem decode_escapes {v : Str} (hv : Escapes bs v) (w : Str) :
    decode (v ++ w) = (decode w).map (latin1 bs ++ ·) := by
  induction hv with
  | nil => simp [latin1]
  | @cons b bs h l v hh hl hv ih =>
    have hbyte : b.toNat / 16 * 16 + b.toNat % 16 = b.toNat := by omega
    rw [List.cons_append, List.cons_append, List.cons_append, decode_escape,
      fromStrRadix_pair hh hl, hbyte, ih]
    cases decode w <;> rfl

theorem latin1_ascii {c : Char} (hc : c.toNat < 128) : latin1 (String.utf8EncodeChar c) = [c] := by
  rw [utf8EncodeChar_ascii hc, latin1, List.map_singleton, toNat_asciiByte hc, Char.ofNat_toNat]

theorem latin1_bytes_cons (c : Char) (s : Str) :
    latin1 (Str.bytes (c :: s)) = latin1 (String.utf8EncodeChar c) ++ latin1 s.bytes := by
  rw [bytes_cons, latin1, List.map_append]
  rfl

/-- Every encoding is decoded into the bytes of its text. -/
theorem decode_formEncodes (hkeep : ∀ c, keep c = true → c ≠ '%' ∧ c ≠ '+' ∧ c.toNat < 128)
    (h : FormEncodes keep s w) : decode w = some (latin1 s.bytes) := by
  induction h with
  | nil => rfl
  | @kept c s w hc h ih =>
    obtain ⟨hpercent, hplus, hascii⟩ := hkeep c hc
    rw [decode_char hpercent hplus, ih, latin1_bytes_cons, latin1_ascii hascii]
    rfl
  | plus h ih =>
    rw [decode_plus, ih, latin1_bytes_cons, latin1_ascii (by decide)]
    rfl
  | escaped hc hv h ih =>
    rw [decode_escapes hv, ih, latin1_bytes_cons]
    rfl

/-- Only ASCII text is its own bytes: every other character has more than one. -/
theorem latin1_bytes_eq_self_iff : latin1 s.bytes = s ↔ ∀ c ∈ s, c.toNat < 128 := by
  induction s with
  | nil => simp [latin1, Str.bytes]
  | cons c s ih =>
    rw [latin1_bytes_cons, List.forall_mem_cons, ← ih]
    by_cases hc : c.toNat < 128
    · rw [latin1_ascii hc, List.singleton_append, List.cons_inj_right, and_iff_right hc]
    · refine iff_of_false (fun heq => ?_) fun h => hc h.1
      have hsize : c.utf8Size ≠ 1 := fun h => hc (utf8Size_eq_one_iff.mp h)
      have hlen := congrArg List.length heq
      have hpos := c.utf8Size_pos
      have hrest := length_bytes_le s
      simp only [latin1, List.length_append, List.length_map, String.length_utf8EncodeChar,
        List.length_cons] at hlen
      omega

end Decode

end Urlencoding

end KernelEngine.Http
