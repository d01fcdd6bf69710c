import KernelEngine.Rust.Text

namespace KernelEngine.Rust

section Start

variable {b : ℕ}

theorem utf8Start_two (hlow : 0xC2 ≤ b) (hhigh : b < 0xE0) :
    utf8Start b = ([], some ⟨1, 0x80, 0xBF, b % 32⟩) := by
  rw [utf8Start, if_neg (by omega), if_neg (by omega), if_pos hhigh]

/-- The second byte of a longer sequence is bounded where the code point would be too
small, a surrogate or too large. -/
theorem utf8Start_three (hlow : 0xE0 ≤ b) (hhigh : b < 0xF0) : utf8Start b =
    ([], some ⟨2, if b = 0xE0 then 0xA0 else 0x80, if b = 0xED then 0x9F else 0xBF, b % 16⟩) := by
  rw [utf8Start, if_neg (by omega), if_neg (by omega), if_neg (by omega)]
  by_cases hfirst : b = 0xE0
  · subst b
    rfl
  by_cases hlast : b = 0xED
  · subst b
    rfl
  rw [if_neg hfirst, if_neg hlast, if_pos hhigh, if_neg hfirst, if_neg hlast]

theorem utf8Start_four (hlow : 0xF0 ≤ b) (hhigh : b < 0xF5) : utf8Start b =
    ([], some ⟨3, if b = 0xF0 then 0x90 else 0x80, if b = 0xF4 then 0x8F else 0xBF, b % 8⟩) := by
  rw [utf8Start, if_neg (by omega), if_neg (by omega), if_neg (by omega), if_neg (by omega),
    if_neg (by omega), if_neg (by omega)]
  by_cases hfirst : b = 0xF0
  · subst b
    rfl
  by_cases hlast : b = 0xF4
  · subst b
    rfl
  rw [if_neg hfirst, if_pos (by omega), if_neg hfirst, if_neg hlast]

end Start

section Decode

variable {b low high point owed : ℕ} {bs : Bytes} {c : Char}

theorem utf8Step_last (hlow : low ≤ b) (hhigh : b ≤ high) :
    utf8Step (some ⟨1, low, high, point⟩) b = ([Char.ofNat (point * 64 + b % 64)], none) := by
  rw [utf8Step, if_pos ⟨hlow, hhigh⟩, if_pos rfl]

theorem utf8Step_more (hlow : low ≤ b) (hhigh : b ≤ high) (howed : owed ≠ 0) :
    utf8Step (some ⟨owed + 1, low, high, point⟩) b =
      ([], some ⟨owed, 0x80, 0xBF, point * 64 + b % 64⟩) := by
  have hne : ¬ owed + 1 = 1 := by omega
  rw [utf8Step, if_pos ⟨hlow, hhigh⟩, if_neg hne]
  rfl

theorem utf8Decode_cons (p : Option Pending) (hb : b < 256) (bs : Bytes) :
    utf8Decode p (UInt8.ofNat b :: bs) = (utf8Step p b).1 ++ utf8Decode (utf8Step p b).2 bs := by
  rw [utf8Decode, UInt8.toNat_ofNat', Nat.mod_eq_of_lt hb]

/-- Each character is read back from its bytes, whatever follows them. -/
theorem utf8Decode_encodeChar (c : Char) (bs : Bytes) :
    utf8Decode none (String.utf8EncodeChar c ++ bs) = c :: utf8Decode none bs := by
  have hvalid : c.toNat < 0xD800 ∨ 0xDFFF < c.toNat ∧ c.toNat < 0x110000 := c.valid
  have hval : c.val.toNat = c.toNat := rfl
  have hchar {n : ℕ} (h : n = c.toNat) : Char.ofNat n = c := by rw [h, Char.ofNat_toNat]
  unfold String.utf8EncodeChar
  simp only [hval]
  split_ifs with h1 h2 h3
  · rw [List.singleton_append, utf8Decode_cons _ (by omega), utf8Step, utf8Start,
      if_pos (by omega), hchar rfl]
    rfl
  · rw [List.cons_append, List.singleton_append, utf8Decode_cons _ (by omega), utf8Step,
      utf8Start_two (by omega) (by omega), utf8Decode_cons _ (by omega),
      utf8Step_last (by omega) (by omega), hchar (by omega)]
    rfl
  · rw [List.cons_append, List.cons_append, List.singleton_append, utf8Decode_cons _ (by omega),
      utf8Step, utf8Start_three (by omega) (by omega), utf8Decode_cons _ (by omega),
      utf8Step_more (by split_ifs <;> omega) (by split_ifs <;> omega) (by decide),
      utf8Decode_cons _ (by omega), utf8Step_last (by omega) (by omega), hchar (by omega)]
    rfl
  · rw [List.cons_append, List.cons_append, List.cons_append, List.singleton_append,
      utf8Decode_cons _ (by omega), utf8Step, utf8Start_four (by omega) (by omega),
      utf8Decode_cons _ (by omega),
      utf8Step_more (by split_ifs <;> omega) (by split_ifs <;> omega) (by decide),
      utf8Decode_cons _ (by omega), utf8Step_more (by omega) (by omega) (by decide),
      utf8Decode_cons _ (by omega), utf8Step_last (by omega) (by omega), hchar (by omega)]
    rfl

theorem fromUtf8Lossy_bytes (s : Str) : fromUtf8Lossy s.bytes = s := by
  induction s with
  | nil => rfl
  | cons c s ih =>
    rw [bytes_cons, fromUtf8Lossy, utf8Decode_encodeChar, ← fromUtf8Lossy, ih]

end Decode

/-- Code points past ASCII: neither surrogates nor too large. -/
def Beyond (a b : ℕ) : Prop := 128 ≤ a ∧ (b < 0xD800 ∨ 0xDFFF < a ∧ b < 0x110000)

/-- Whatever completes the sequence is a character past ASCII. -/
def Pending.Sound (p : Pending) : Prop :=
  0x80 ≤ p.low ∧ p.low ≤ p.high ∧ p.high ≤ 0xBF ∧
    ((p.owed = 1 ∧ Beyond (p.point * 64 + p.low % 64) (p.point * 64 + p.high % 64)) ∨
      (p.owed = 2 ∧ Beyond ((p.point * 64 + p.low % 64) * 64)
        ((p.point * 64 + p.high % 64) * 64 + 63)) ∨
      (p.owed = 3 ∧ Beyond ((p.point * 64 + p.low % 64) * 4096)
        ((p.point * 64 + p.high % 64) * 4096 + 4095)))

section Sound

variable {p : Pending} {b : ℕ} {bs : Bytes}

theorem utf8Start_beyond (hb : 128 ≤ b) : utf8Start b = ([replacement], none) ∨
    ∃ p, utf8Start b = ([], some p) ∧ p.Sound := by
  by_cases hbad : b < 0xC2 ∨ 0xF4 < b
  · left
    obtain h | h := hbad
    · rw [utf8Start, if_neg (by omega), if_pos h]
    · unfold utf8Start
      iterate 9 rw [if_neg (by omega)]
  right
  by_cases h2 : b < 0xE0
  · refine ⟨_, utf8Start_two (by omega) h2, ?_⟩
    dsimp only [Pending.Sound, Beyond]
    omega
  by_cases h3 : b < 0xF0
  · refine ⟨_, utf8Start_three (by omega) h3, ?_⟩
    dsimp only [Pending.Sound, Beyond]
    split_ifs <;> omega
  · refine ⟨_, utf8Start_four (by omega) (by omega), ?_⟩
    dsimp only [Pending.Sound, Beyond]
    split_ifs <;> omega

theorem le_of_beyond {a n b : ℕ} (h : Beyond a b) (hn : a ≤ n) (hb : n ≤ b) :
    128 ≤ (Char.ofNat n).toNat := by
  have hvalid : n.isValidChar := by
    unfold Nat.isValidChar
    obtain ⟨-, h | h⟩ := h <;> omega
  rw [Char.ofNat, dif_pos hvalid]
  exact Nat.le_trans h.1 hn

theorem utf8Step_sound (hp : p.Sound) (hlow : p.low ≤ b) (hhigh : b ≤ p.high) :
    (∃ c, utf8Step (some p) b = ([c], none) ∧ 128 ≤ c.toNat) ∨
      ∃ q, utf8Step (some p) b = ([], some q) ∧ q.Sound := by
  obtain ⟨owed, low, high, point⟩ := p
  obtain ⟨h80, hle, hBF, ⟨rfl, h⟩ | ⟨rfl, h⟩ | ⟨rfl, h⟩⟩ := hp
  · dsimp only at *
    exact Or.inl ⟨_, utf8Step_last hlow hhigh, le_of_beyond h (by omega) (by omega)⟩
  · refine Or.inr ⟨_, utf8Step_more hlow hhigh (by decide), ?_⟩
    dsimp only [Pending.Sound, Beyond] at *
    omega
  · refine Or.inr ⟨_, utf8Step_more hlow hhigh (by decide), ?_⟩
    dsimp only [Pending.Sound, Beyond] at *
    omega

/-- A sequence that has begun leaves a mark, complete or not. -/
theorem exists_beyond (hp : p.Sound) (bs : Bytes) :
    ∃ c ∈ utf8Decode (some p) bs, 128 ≤ c.toNat := by
  have hmark : 128 ≤ replacement.toNat := by decide
  induction bs generalizing p with
  | nil => exact ⟨replacement, List.mem_singleton_self _, hmark⟩
  | cons b bs ih =>
    rw [utf8Decode]
    by_cases hcont : p.low ≤ b.toNat ∧ b.toNat ≤ p.high
    · obtain ⟨c, hstep, hc⟩ | ⟨q, hstep, hq⟩ := utf8Step_sound hp hcont.1 hcont.2
      · rw [hstep]
        exact ⟨c, List.mem_cons_self, hc⟩
      · rw [hstep]
        exact ih hq
    · rw [utf8Step, if_neg hcont]
      exact ⟨replacement, List.mem_cons_self, hmark⟩

/-- Only ASCII text is read as ASCII text. -/
theorem bytes_fromUtf8Lossy (h : ∀ c ∈ fromUtf8Lossy bs, c.toNat < 128) :
    (fromUtf8Lossy bs).bytes = bs := by
  induction bs with
  | nil => rfl
  | cons b bs ih =>
    rw [fromUtf8Lossy, utf8Decode, utf8Step] at h ⊢
    obtain hb | hb := Nat.lt_or_ge b.toNat 128
    · have hstart : utf8Start b.toNat = ([Char.ofNat b.toNat], none) := if_pos hb
      have hchar : (Char.ofNat b.toNat).toNat = b.toNat := by
        have hvalid : b.toNat.isValidChar := Or.inl (by omega)
        rw [Char.ofNat, dif_pos hvalid]
        rfl
      rw [hstart] at h ⊢
      have hbyte : asciiByte (Char.ofNat b.toNat) = b := by
        rw [asciiByte, hchar, UInt8.ofNat_toNat]
      rw [List.singleton_append, bytes_cons, utf8EncodeChar_ascii (by omega), hbyte,
        ← fromUtf8Lossy, ih fun c hc => h c (List.mem_cons_of_mem _ hc)]
      rfl
    · obtain hstart | ⟨p, hstart, hp⟩ := utf8Start_beyond hb
      · rw [hstart] at h
        exact absurd (h replacement List.mem_cons_self) (by decide)
      · rw [hstart] at h
        obtain ⟨c, hc, hge⟩ := exists_beyond hp bs
        exact absurd (h c hc) (Nat.not_lt.mpr hge)

end Sound

/-- `String::from_utf8`. -/
def fromUtf8 (bs : Bytes) : Option Str := bs.toByteArray.utf8Decode?.map Array.toList

theorem fromUtf8_bytes (s : Str) : fromUtf8 s.bytes = some s := by
  have hutf8 : s.bytes.toByteArray.utf8Decode? = some s.toArray := List.utf8Decode?_utf8Encode
  rw [fromUtf8, hutf8]
  rfl

/-- A text is read from its own bytes and from no others. -/
theorem fromUtf8_eq_some_iff {bs : Bytes} {s : Str} : fromUtf8 bs = some s ↔ bs = s.bytes := by
  constructor
  · intro h
    obtain ⟨decoded, hdecode, -⟩ := Option.map_eq_some_iff.mp h
    obtain ⟨m, hm⟩ := ByteArray.isSome_utf8Decode?_iff.mp (Option.isSome_of_mem hdecode)
    have hbytes : bs.toByteArray = (Str.bytes m).toByteArray := hm
    obtain rfl : bs = Str.bytes m := by simpa using congrArg (fun b => b.data.toList) hbytes
    rw [fromUtf8_bytes] at h
    rw [Option.some.inj h]
  · rintro rfl
    exact fromUtf8_bytes s

end KernelEngine.Rust
