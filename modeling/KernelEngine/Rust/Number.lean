import KernelEngine.Rust.Utf8
import Mathlib.Algebra.Group.Nat.Defs
import Mathlib.Algebra.Ring.Int.Defs

namespace KernelEngine.Rust

/-- `char::to_digit`. -/
def toDigit (radix : ℕ) (c : Char) : Option ℕ :=
  let digit :=
    if '0' ≤ c ∧ c ≤ '9' then c.toNat - '0'.toNat
    else if 'a' ≤ c ∧ c ≤ 'z' then c.toNat - 'a'.toNat + 10
    else if 'A' ≤ c ∧ c ≤ 'Z' then c.toNat - 'A'.toNat + 10
    else radix
  if digit < radix then some digit else none

/-- Digits behind those that already make `n`. -/
def digitsFrom (radix : ℕ) : ℕ → Str → Option ℕ
  | n, [] => some n
  | n, c :: s => (toDigit radix c).bind fun digit => digitsFrom radix (n * radix + digit) s

/-- `from_str_radix` of an unsigned type with this many values: an optional plus sign and
at least one digit. That an overflow is seen before the last digit makes no difference,
since either is an error. -/
def fromStrRadix (values radix : ℕ) (s : Str) : Option ℕ :=
  let digits := match s with
    | '+' :: rest => rest
    | _ => s
  if digits = [] then none
  else (digitsFrom radix 0 digits).bind fun n => if n < values then some n else none

/-- `usize::from_str`. -/
def parseUsize (s : Str) : Option ℕ := fromStrRadix (2 ^ 64) 10 s

theorem toDigit_lt {radix d : ℕ} {c : Char} (h : toDigit radix c = some d) : d < radix := by
  obtain ⟨hlt, hd⟩ := Option.ite_none_right_eq_some.mp h
  obtain rfl := Option.some.inj hd
  exact hlt

/-- The result of a `usize` operation whose exact value is `n`: past 64 bits it panics where
overflow checks are compiled in, and keeps the lower bits where they are not. -/
def usize (checks : Bool) (n : ℕ) : Option ℕ :=
  if n < 2 ^ 64 then some n else if checks then none else some (n % 2 ^ 64)

theorem usize_of_lt {checks : Bool} {n : ℕ} (h : n < 2 ^ 64) : usize checks n = some n := if_pos h

theorem usize_wraps (n : ℕ) : usize false n = some (n % 2 ^ 64) := by
  by_cases h : n < 2 ^ 64
  · rw [usize_of_lt h, Nat.mod_eq_of_lt h]
  · exact if_neg h

theorem usize_panics {n : ℕ} (h : 2 ^ 64 ≤ n) : usize true n = none := if_neg (Nat.not_lt.mpr h)

theorem usize_eq_self_iff {checks : Bool} {n : ℕ} : usize checks n = some n ↔ n < 2 ^ 64 := by
  refine ⟨fun h => ?_, usize_of_lt⟩
  by_contra hge
  cases checks with
  | true =>
    rw [usize_panics (Nat.not_lt.mp hge)] at h
    cases h
  | false =>
    rw [usize_wraps] at h
    have hmod := Option.some.inj h
    omega

/-- `as i64` keeps the lower half of `u64`, and makes the upper half negative. -/
theorem toInt_toInt64 (n : UInt64) : n.toInt64.toInt =
    if n.toNat < 2 ^ 63 then (n.toNat : ℤ) else n.toNat - 2 ^ 64 := by
  have hcond : n.toInt64.toInt = if 2 * n.toNat < 2 ^ 64 then (n.toNat : ℤ)
      else n.toNat - (2 ^ 64 : ℕ) := BitVec.toInt_eq_toNat_cond n.toBitVec
  rw [hcond]
  split_ifs <;> omega

theorem toInt_toInt64_of_lt {n : UInt64} (h : n.toNat < 2 ^ 63) : n.toInt64.toInt = n.toNat := by
  rw [toInt_toInt64, if_pos h]

/-- Text of decimal digits and nothing else, for a number that fits in `usize`. -/
def Denotes (s : Str) (n : ℕ) : Prop :=
  s ≠ [] ∧ (∀ c ∈ s, c.isDigit = true) ∧ Nat.ofDigitChars 10 s 0 = n ∧ n < 2 ^ 64

theorem toDigit_ten (c : Char) :
    toDigit 10 c = if c.isDigit then some (c.toNat - '0'.toNat) else none := by
  have hle (a b : Char) : a ≤ b ↔ a.toNat ≤ b.toNat := UInt32.le_iff_toNat_le
  have hval : c.val.toNat = c.toNat := rfl
  have h0 : '0'.toNat = 48 := rfl
  have h9 : '9'.toNat = 57 := rfl
  simp only [toDigit, Char.isDigit, Bool.and_eq_true, decide_eq_true_eq, ge_iff_le,
    UInt32.le_iff_toNat_le, hle, hval, h0, h9]
  change _ = if 48 ≤ c.toNat ∧ c.toNat ≤ 57 then _ else _
  split_ifs <;> first | omega | rfl

theorem digitsFrom_ten {m n : ℕ} {s : Str} : digitsFrom 10 m s = some n ↔
    (∀ c ∈ s, c.isDigit = true) ∧ Nat.ofDigitChars 10 s m = n := by
  induction s generalizing m with
  | nil => simp [digitsFrom]
  | cons c s ih =>
    rw [digitsFrom, toDigit_ten, List.forall_mem_cons, Nat.ofDigitChars_cons]
    split_ifs with hc
    · rw [Option.bind_some, ih, Nat.mul_comm m 10, and_iff_right hc]
    · simp [hc]

/-- A number is written in digits, with a plus sign or without. -/
theorem parseUsize_iff {s : Str} {n : ℕ} :
    parseUsize s = some n ↔ Denotes s n ∨ ∃ t, s = '+' :: t ∧ Denotes t n := by
  have hdigits (t : Str) : (if t = [] then none
      else (digitsFrom 10 0 t).bind fun n => if n < 2 ^ 64 then some n else none) = some n ↔
      Denotes t n := by
    rw [Denotes]
    split_ifs with ht
    · simp [ht]
    · simp only [Option.bind_eq_some_iff, digitsFrom_ten, Option.ite_none_right_eq_some,
        Option.some.injEq]
      constructor
      · rintro ⟨k, ⟨hall, rfl⟩, hlt, rfl⟩
        exact ⟨ht, hall, rfl, hlt⟩
      · rintro ⟨-, hall, rfl, hlt⟩
        exact ⟨_, ⟨hall, rfl⟩, hlt, rfl⟩
  rw [parseUsize, fromStrRadix.eq_def]
  dsimp only
  split
  · rename_i t
    rw [hdigits]
    have hplus : ¬ Denotes ('+' :: t) n := by
      rintro ⟨-, hall, -⟩
      exact absurd (hall '+' List.mem_cons_self) (by decide)
    simp [hplus]
  · rename_i hplus
    rw [hdigits]
    refine ⟨Or.inl, fun h => h.resolve_right ?_⟩
    rintro ⟨t, rfl, -⟩
    exact hplus t rfl

/-- Digits are read as the number they denote, by every type that has it. -/
theorem fromStrRadix_of_denotes {values n : ℕ} {s : Str} (h : Denotes s n) (hn : n < values) :
    fromStrRadix values 10 s = some n := by
  obtain ⟨hne, hall, hvalue, -⟩ := h
  have hplus (t : Str) : s ≠ '+' :: t := by
    rintro rfl
    exact absurd (hall '+' List.mem_cons_self) (by decide)
  have hdigits : digitsFrom 10 0 s = some n := digitsFrom_ten.mpr ⟨hall, hvalue⟩
  rw [fromStrRadix.eq_def]
  dsimp only
  split
  · rename_i t
    exact (hplus t rfl).elim
  · rw [if_neg hne, hdigits, Option.bind_some, if_pos hn]

theorem ascii_of_parseUsize {s : Str} {n : ℕ} (h : parseUsize s = some n) :
    ∀ c ∈ s, c.toNat < 128 := by
  have hdigit {c : Char} (hc : c.isDigit = true) : c.toNat < 128 :=
    Nat.lt_of_le_of_lt (Char.isDigit_iff_toNat.mp hc).2 (by decide)
  obtain ⟨-, hall, -⟩ | ⟨t, rfl, -, hall, -⟩ := parseUsize_iff.mp h
  · exact fun c hc => hdigit (hall c hc)
  · exact List.forall_mem_cons.mpr ⟨by decide, fun c hc => hdigit (hall c hc)⟩

example : parseUsize "+0042".toList = some 42 := by decide

example : fromStrRadix 256 16 "+f".toList = some 15 := by decide

end KernelEngine.Rust
