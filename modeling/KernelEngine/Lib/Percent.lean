import Mathlib.Data.List.Basic

namespace KernelEngine.Percent

/-- The upper-case hexadecimal digit of a number below 16. -/
def hexDigit (n : ℕ) : Char := Char.ofNat (if n < 10 then 0x30 + n else 0x37 + n)

def escape (b : UInt8) : List Char := ['%', hexDigit (b.toNat / 16), hexDigit (b.toNat % 16)]

/-- A character that is not kept is written as the escapes of its UTF-8 bytes. -/
def encodeChar (keep : Char → Bool) (c : Char) : List Char :=
  if keep c then [c] else (String.utf8EncodeChar c).flatMap escape

/-- Percent-encoding with a given set of characters left alone. -/
def encode (keep : Char → Bool) (s : List Char) : List Char := s.flatMap (encodeChar keep)

/-- The characters that are never escaped. -/
def unreserved (c : Char) : Bool :=
  c.isAlphanum || c == '-' || c == '.' || c == '_' || c == '~'

/-- The value of a hexadecimal digit of either case. -/
def hexValue (c : Char) : Option ℕ :=
  if '0' ≤ c ∧ c ≤ '9' then some (c.toNat - '0'.toNat)
  else if 'a' ≤ c ∧ c ≤ 'f' then some (c.toNat - 'a'.toNat + 10)
  else if 'A' ≤ c ∧ c ≤ 'F' then some (c.toNat - 'A'.toNat + 10)
  else none

/-- A word of escapes for these bytes, with digits of either case. -/
inductive Escapes : List UInt8 → List Char → Prop
  | nil : Escapes [] []
  | cons {b : UInt8} {bs : List UInt8} {h l : Char} {w : List Char}
      (hh : hexValue h = some (b.toNat / 16)) (hl : hexValue l = some (b.toNat % 16))
      (hw : Escapes bs w) : Escapes (b :: bs) ('%' :: h :: l :: w)

/-- An encoding of a text as a form value. Each space may also be written as a plus
sign. -/
inductive FormEncodes (keep : Char → Bool) : List Char → List Char → Prop
  | nil : FormEncodes keep [] []
  | kept {c : Char} {s w : List Char} (hc : keep c = true) (h : FormEncodes keep s w) :
      FormEncodes keep (c :: s) (c :: w)
  | plus {s w : List Char} (h : FormEncodes keep s w) : FormEncodes keep (' ' :: s) ('+' :: w)
  | escaped {c : Char} {s v w : List Char} (hc : keep c = false)
      (hv : Escapes (String.utf8EncodeChar c) v) (h : FormEncodes keep s w) :
      FormEncodes keep (c :: s) (v ++ w)

/-- What stands behind each percent sign of a text, read from the left: the next two
characters, which are not looked at again, or the rest where there are not so many. -/
def escapes : List Char → List (List Char)
  | [] => []
  | c :: s =>
    if c = '%' then match s with
      | h :: l :: s => [h, l] :: escapes s
      | s => [s]
    else escapes s

def IsHexPair (e : List Char) : Prop :=
  ∃ h l, e = [h, l] ∧ (hexValue h).isSome ∧ (hexValue l).isSome

/-- Every percent sign is followed by two hexadecimal digits. -/
def WellFormed (s : List Char) : Prop := ∀ e ∈ escapes s, IsHexPair e

variable {keep : Char → Bool} {c d : Char} {s : List Char}

theorem hexDigit_isAlphanum {n : ℕ} (hn : n < 16) : (hexDigit n).isAlphanum = true := by
  decide +revert

theorem encodeChar_of_keep (h : keep c = true) : encodeChar keep c = [c] := if_pos h

theorem three_le_length_encodeChar (h : keep c = false) : 3 ≤ (encodeChar keep c).length := by
  obtain ⟨b, bs, hbytes⟩ := List.exists_cons_of_ne_nil (String.utf8EncodeChar_ne_nil (c := c))
  rw [encodeChar, h, if_neg Bool.false_ne_true, hbytes, List.flatMap_cons, List.length_append]
  exact Nat.le_add_right 3 _

theorem length_le_encode (keep : Char → Bool) (s : List Char) :
    s.length ≤ (encode keep s).length := by
  induction s with
  | nil => exact Nat.zero_le _
  | cons c s ih =>
    rw [encode, List.flatMap_cons, List.length_append, ← encode, List.length_cons]
    cases h : keep c with
    | true =>
      rw [encodeChar_of_keep h, List.length_singleton]
      omega
    | false =>
      have hc := three_le_length_encodeChar h
      omega

/-- Encoding leaves a text alone exactly when it keeps all of its characters. -/
theorem encode_eq_self_iff : encode keep s = s ↔ ∀ c ∈ s, keep c = true := by
  induction s with
  | nil => simp [encode]
  | cons c s ih =>
    rw [List.forall_mem_cons, ← ih, encode, List.flatMap_cons, ← encode]
    cases h : keep c with
    | true => simp [encodeChar_of_keep h]
    | false =>
      have hlong := three_le_length_encodeChar h
      have hrest := length_le_encode keep s
      refine iff_of_false (fun heq => ?_) (by simp)
      have hlen := congrArg List.length heq
      rw [List.length_append, List.length_cons] at hlen
      omega

theorem head?_encode_cons : (encode keep (c :: s)).head? = some (if keep c then c else '%') := by
  rw [encode, List.flatMap_cons]
  cases h : keep c with
  | true => rw [encodeChar_of_keep h, List.singleton_append, List.head?_cons, if_pos rfl]
  | false =>
    obtain ⟨b, bs, hbytes⟩ := List.exists_cons_of_ne_nil (String.utf8EncodeChar_ne_nil (c := c))
    rw [encodeChar, h, if_neg Bool.false_ne_true, hbytes, if_neg Bool.false_ne_true]
    rfl

/-- A character that is not kept is gone from the text, unless the escapes are made of
it. -/
theorem not_mem_encode (hkeep : keep c = false) (hpercent : c ≠ '%')
    (hdigit : c.isAlphanum = false) : c ∉ encode keep s := by
  intro hmem
  obtain ⟨d, -, hd⟩ := List.mem_flatMap.mp hmem
  unfold encodeChar at hd
  split_ifs at hd with h
  · obtain rfl := List.mem_singleton.mp hd
    exact Bool.false_ne_true (hkeep.symm.trans h)
  · obtain ⟨b, -, hb⟩ := List.mem_flatMap.mp hd
    have hhigh : b.toNat / 16 < 16 := by have := b.toNat_lt; omega
    have hlow : b.toNat % 16 < 16 := Nat.mod_lt _ (by decide)
    simp only [escape, List.mem_cons, List.not_mem_nil, or_false] at hb
    obtain rfl | rfl | rfl := hb
    · exact hpercent rfl
    · exact Bool.false_ne_true (hdigit.symm.trans (hexDigit_isAlphanum hhigh))
    · exact Bool.false_ne_true (hdigit.symm.trans (hexDigit_isAlphanum hlow))

theorem hexValue_hexDigit {n : ℕ} (hn : n < 16) : hexValue (hexDigit n) = some n := by
  decide +revert

theorem isAlphanum_iff : c.isAlphanum = true ↔
    ('A' ≤ c ∧ c ≤ 'Z' ∨ 'a' ≤ c ∧ c ≤ 'z') ∨ '0' ≤ c ∧ c ≤ '9' := by
  have hdef : c.isAlphanum =
      ((decide ('A' ≤ c ∧ c ≤ 'Z') || decide ('a' ≤ c) && decide (c ≤ 'z')) ||
        decide ('0' ≤ c) && decide (c ≤ '9')) := rfl
  rw [hdef]
  simp only [Bool.or_eq_true, Bool.and_eq_true, decide_eq_true_eq]

theorem isAlphanum_of_hexValue (h : (hexValue c).isSome) : c.isAlphanum = true := by
  rw [isAlphanum_iff]
  unfold hexValue at h
  split_ifs at h with hdigit hlower hupper
  · exact Or.inr hdigit
  · exact Or.inl (Or.inr ⟨hlower.1, Char.le_trans hlower.2 (by decide)⟩)
  · exact Or.inl (Or.inl ⟨hupper.1, Char.le_trans hupper.2 (by decide)⟩)
  · cases h

theorem isAlphanum_lt (h : c.isAlphanum = true) : c.toNat < 128 := by
  have hbound {d : Char} (hle : c ≤ d) (hd : d.toNat < 128) : c.toNat < 128 :=
    Nat.lt_of_le_of_lt (UInt32.le_iff_toNat_le.mp hle) hd
  obtain (h | h) | h := isAlphanum_iff.mp h <;> exact hbound h.2 (by decide)

theorem escapes_flatMap (bs : List UInt8) : Escapes bs (bs.flatMap escape) := by
  induction bs with
  | nil => exact .nil
  | cons b bs ih =>
    have hb : b.toNat / 16 < 16 := by
      have := b.toNat_lt
      omega
    exact .cons (hexValue_hexDigit hb) (hexValue_hexDigit (Nat.mod_lt _ (by decide))) ih

/-- Percent-encoding proper is one of the encodings as a form value. -/
theorem formEncodes_encode (keep : Char → Bool) (s : List Char) :
    FormEncodes keep s (encode keep s) := by
  induction s with
  | nil => exact .nil
  | cons c s ih =>
    rw [encode, List.flatMap_cons, ← encode, encodeChar]
    split_ifs with h
    · exact .kept h ih
    · exact .escaped (Bool.eq_false_iff.mpr h) (escapes_flatMap _) ih

theorem Escapes.mem {bs : List UInt8} {w : List Char} (h : Escapes bs w) (hd : d ∈ w) :
    d = '%' ∨ d.isAlphanum = true := by
  induction h with
  | nil => cases hd
  | cons hh hl hw ih =>
    simp only [List.mem_cons] at hd
    obtain rfl | rfl | rfl | hd := hd
    · exact Or.inl rfl
    · exact Or.inr (isAlphanum_of_hexValue (by rw [hh]; rfl))
    · exact Or.inr (isAlphanum_of_hexValue (by rw [hl]; rfl))
    · exact ih hd

/-- What an encoding is made of. -/
theorem FormEncodes.mem {w : List Char} (h : FormEncodes keep s w) (hd : d ∈ w) :
    keep d = true ∨ d = '+' ∨ d = '%' ∨ d.isAlphanum = true := by
  induction h with
  | nil => cases hd
  | kept hc h ih =>
    obtain rfl | hd := List.mem_cons.mp hd
    · exact Or.inl hc
    · exact ih hd
  | plus h ih =>
    obtain rfl | hd := List.mem_cons.mp hd
    · exact Or.inr (Or.inl rfl)
    · exact ih hd
  | escaped hc hv h ih =>
    obtain hd | hd := List.mem_append.mp hd
    · exact Or.inr (Or.inr (hv.mem hd))
    · exact ih hd

end KernelEngine.Percent
