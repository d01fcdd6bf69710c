import Mathlib.Data.List.Basic

namespace KernelEngine.Rust

/-- A Rust `String` or `&str`, as its characters. -/
abbrev Str := List Char

abbrev Bytes := List UInt8

/-- `anyhow!` errors carry their message. -/
abbrev Anyhow := Str

/-- A call either returns, fails with an error value, panics, or has the process killed
by a signal. -/
inductive Fault where
  | error (message : Anyhow)
  | panicked
  | killed
  deriving DecidableEq, Repr

section Results

variable {ε δ α β : Type}

/-- What the question mark lets through. -/
theorem bind_eq_ok {x : Except ε α} {f : α → Except ε β} {b : β} :
    x >>= f = .ok b ↔ ∃ a, x = .ok a ∧ f a = .ok b := by
  cases x <;> simp [bind, Except.bind]

theorem mapError_eq_ok {x : Except ε α} {f : ε → δ} {a : α} :
    x.mapError f = .ok a ↔ x = .ok a := by
  cases x <;> simp [Except.mapError]

end Results

/-- `str::as_bytes`. -/
def Str.bytes (s : Str) : Bytes := s.flatMap String.utf8EncodeChar

@[simp] theorem bytes_cons (c : Char) (s : Str) :
    Str.bytes (c :: s) = String.utf8EncodeChar c ++ Str.bytes s := rfl

theorem bytes_append (s t : Str) : Str.bytes (s ++ t) = Str.bytes s ++ Str.bytes t :=
  List.flatMap_append

/-- One byte of ASCII text. -/
def asciiByte (c : Char) : UInt8 := UInt8.ofNat c.toNat

theorem bytes_of_ascii {s : Str} (h : ∀ c ∈ s, c.toNat < 128) :
    Str.bytes s = s.map asciiByte := by
  induction s with
  | nil => rfl
  | cons c s ih =>
    have hc : c.val.toNat ≤ 127 := Nat.le_of_lt_succ (h c (by simp))
    rw [bytes_cons, ih (fun d hd => h d (by simp [hd]))]
    simp only [String.utf8EncodeChar, hc, ↓reduceIte, List.map_cons, asciiByte]
    rfl

theorem utf8EncodeChar_ascii {c : Char} (hc : c.toNat < 128) :
    String.utf8EncodeChar c = [asciiByte c] := by
  rw [← List.append_nil (String.utf8EncodeChar c)]
  exact bytes_of_ascii (s := [c]) (by simpa using hc)

theorem utf8Size_eq_one_iff {c : Char} : c.utf8Size = 1 ↔ c.toNat < 128 := by
  rw [Char.utf8Size_eq_one_iff, UInt32.le_iff_toNat_le]
  exact Nat.lt_succ_iff.symm

theorem length_bytes_le (s : Str) : s.length ≤ s.bytes.length := by
  induction s with
  | nil => exact Nat.zero_le _
  | cons c s ih =>
    rw [bytes_cons, List.length_append, String.length_utf8EncodeChar, List.length_cons]
    have := c.utf8Size_pos
    omega

theorem toNat_asciiByte {c : Char} (hc : c.toNat < 128) : (asciiByte c).toNat = c.toNat := by
  rw [asciiByte, UInt8.toNat_ofNat', Nat.mod_eq_of_lt (by omega)]

/-- Characters past ASCII are encoded without ASCII bytes. -/
theorem le_toNat_of_mem_utf8EncodeChar {d : Char} (hd : 128 ≤ d.toNat) {b : UInt8}
    (h : b ∈ String.utf8EncodeChar d) : 128 ≤ b.toNat := by
  have high {n : ℕ} (h128 : 128 ≤ n) (h256 : n < 256) : 128 ≤ (UInt8.ofNat n).toNat := by
    rwa [UInt8.toNat_ofNat', Nat.mod_eq_of_lt h256]
  have hnot : ¬ d.val.toNat ≤ 127 := fun h => absurd hd (Nat.not_le.mpr (Nat.lt_succ_of_le h))
  simp only [String.utf8EncodeChar, if_neg hnot] at h
  split_ifs at h <;> simp only [List.mem_cons, List.not_mem_nil, or_false] at h
  · obtain rfl | rfl := h <;> exact high (by omega) (by omega)
  · obtain rfl | rfl | rfl := h <;> exact high (by omega) (by omega)
  · obtain rfl | rfl | rfl | rfl := h <;> exact high (by omega) (by omega)

/-- The bytes of an ASCII character stand for this character alone. -/
theorem not_mem_bytes {c : Char} {s : Str} (hc : c.toNat < 128) (h : c ∉ s) :
    asciiByte c ∉ s.bytes := by
  intro hmem
  obtain ⟨d, hd, hbyte⟩ := List.mem_flatMap.mp hmem
  obtain hascii | hhigh := Nat.lt_or_ge d.toNat 128
  · have heq := congrArg UInt8.toNat
      (List.mem_singleton.mp (utf8EncodeChar_ascii hascii ▸ hbyte))
    rw [toNat_asciiByte hc, toNat_asciiByte hascii] at heq
    have hsame : c = d := Char.toNat_inj.mp heq
    exact h (hsame ▸ hd)
  · have hle := le_toNat_of_mem_utf8EncodeChar hhigh hbyte
    rw [toNat_asciiByte hc] at hle
    omega

/-- `usize::to_string`. -/
def decimal (n : ℕ) : Str := Nat.toDigits 10 n

theorem isDigit_of_mem_decimal {n : ℕ} {c : Char} (h : c ∈ decimal n) : c.isDigit = true :=
  Nat.isDigit_of_mem_toDigits (by decide) (by decide) h

theorem not_mem_decimal {n : ℕ} {c : Char} (h : c.isDigit = false) : c ∉ decimal n :=
  fun hmem => Bool.false_ne_true (h.symm.trans (isDigit_of_mem_decimal hmem))

/-- One part of a dotted address: up to three digits, no leading zero, at most 255. -/
def octet (s : Str) : Option UInt8 :=
  let n := s.foldl (fun n c => 10 * n + (c.toNat - '0'.toNat)) 0
  if s ≠ [] ∧ s.length ≤ 3 ∧ s.all Char.isDigit ∧ (s.length = 1 ∨ s.head? ≠ some '0') ∧ n ≤ 255 then
    some (UInt8.ofNat n)
  else none

/-- `Ipv4Addr`, its octets in order. -/
abbrev Ipv4Addr := UInt8 × UInt8 × UInt8 × UInt8

/-- `Ipv4Addr::from_str`. -/
def Ipv4Addr.parse (s : Str) : Option Ipv4Addr :=
  match s.splitOn '.' with
  | [a, b, c, d] => do return (← octet a, ← octet b, ← octet c, ← octet d)
  | _ => none

/-- `&s[1..]`, which panics past the end or inside a character. -/
def dropByte : Str → Option Str
  | [] => none
  | c :: s => if c.utf8Size = 1 then some s else none

/-- `str::to_lowercase`. Outside ASCII only the characters that lower to ASCII
matter here, and the Kelvin sign is the one whose lowercase is ASCII alone. -/
def toLowercase (s : Str) : Str :=
  s.map fun c => if c = Char.ofNat 0x212A then 'k' else c.toLower

/-- The state of a UTF-8 decoder inside a sequence: continuation bytes owed, the
range of the next one, and the code point read so far. -/
structure Pending where
  owed : ℕ
  low : ℕ
  high : ℕ
  point : ℕ

def replacement : Char := Char.ofNat 0xFFFD

def utf8Start (b : ℕ) : Str × Option Pending :=
  if b < 0x80 then ([Char.ofNat b], none)
  else if b < 0xC2 then ([replacement], none)
  else if b < 0xE0 then ([], some ⟨1, 0x80, 0xBF, b % 32⟩)
  else if b = 0xE0 then ([], some ⟨2, 0xA0, 0xBF, 0⟩)
  else if b = 0xED then ([], some ⟨2, 0x80, 0x9F, b % 16⟩)
  else if b < 0xF0 then ([], some ⟨2, 0x80, 0xBF, b % 16⟩)
  else if b = 0xF0 then ([], some ⟨3, 0x90, 0xBF, 0⟩)
  else if b < 0xF4 then ([], some ⟨3, 0x80, 0xBF, b % 8⟩)
  else if b = 0xF4 then ([], some ⟨3, 0x80, 0x8F, 4⟩)
  else ([replacement], none)

/-- A byte that does not continue the sequence ends it with one replacement
character and starts anew. -/
def utf8Step : Option Pending → ℕ → Str × Option Pending
  | none, b => utf8Start b
  | some p, b =>
    if p.low ≤ b ∧ b ≤ p.high then
      if p.owed = 1 then ([Char.ofNat (p.point * 64 + b % 64)], none)
      else ([], some ⟨p.owed - 1, 0x80, 0xBF, p.point * 64 + b % 64⟩)
    else (replacement :: (utf8Start b).1, (utf8Start b).2)

def utf8Decode : Option Pending → Bytes → Str
  | none, [] => []
  | some _, [] => [replacement]
  | p, b :: bs => (utf8Step p b.toNat).1 ++ utf8Decode (utf8Step p b.toNat).2 bs

/-- `String::from_utf8_lossy`. -/
def fromUtf8Lossy (bs : Bytes) : Str := utf8Decode none bs

example : fromUtf8Lossy [0x61, 0xC3, 0xA9, 0xE2, 0x82, 0x62] = "aé\uFFFDb".toList := by decide

end KernelEngine.Rust
