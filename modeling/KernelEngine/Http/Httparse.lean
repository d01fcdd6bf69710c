import KernelEngine.Rust.Utf8
import Mathlib.Data.List.DropRight
import Mathlib.Data.List.TakeDrop

namespace KernelEngine.Http
open Rust

/-- `httparse::Error`. -/
inductive HttparseError where
  | headerName
  | headerValue
  | newLine
  | status
  | token
  | tooManyHeaders
  | version
  deriving DecidableEq, Repr

/-- The `{:?}` form of the error, as `parse` prints it. -/
def HttparseError.debug : HttparseError → Str
  | .headerName => "HeaderName".toList
  | .headerValue => "HeaderValue".toList
  | .newLine => "NewLine".toList
  | .status => "Status".toList
  | .token => "Token".toList
  | .tooManyHeaders => "TooManyHeaders".toList
  | .version => "Version".toList

/-- `httparse::Status<usize>`: a complete head comes with its length. -/
inductive Status where
  | incomplete
  | complete (headLength : ℕ)
  deriving DecidableEq, Repr

/-- The fields of `httparse::Request` after a call of `parse`. -/
structure RawRequest where
  method : Option Str
  path : Option Str
  version : Option ℕ
  headers : List (Str × Bytes)
  deriving DecidableEq, Repr

/-- `httparse::Request::parse` with a given number of header slots. The crate is
not part of the repository: the model takes it as a parameter. -/
abbrev Httparse := ℕ → Bytes → Except HttparseError (Status × RawRequest)

section Grammar

/-- `tchar` of the HTTP grammar. -/
def isToken (b : UInt8) : Bool :=
  (0x30 ≤ b && b ≤ 0x39) || (0x41 ≤ b && b ≤ 0x5A) || (0x61 ≤ b && b ≤ 0x7A) ||
    [0x21, 0x23, 0x24, 0x25, 0x26, 0x27, 0x2A, 0x2B, 0x2D, 0x2E, 0x5E, 0x5F, 0x60, 0x7C,
      0x7E].contains b

def isTargetByte (b : UInt8) : Bool := 0x21 ≤ b && b != 0x7F

def isValueByte (b : UInt8) : Bool := b == 0x09 || (0x20 ≤ b && b != 0x7F)

def isBlank (b : UInt8) : Bool := b == 0x09 || b == 0x20

end Grammar

/-- A request in canonical form: one space between the parts of the request line,
`name: value` lines, and no blanks around a value. -/
structure RequestText where
  method : Str
  target : Str
  minor : Bool
  headers : List (Str × Str)
  body : Bytes
  ascii_method : ∀ c ∈ method, c.toNat < 128
  token_method : ∀ b ∈ method.bytes, isToken b = true
  method_ne : method ≠ []
  visible_target : ∀ b ∈ target.bytes, isTargetByte b = true
  target_ne : target ≠ []
  ascii_headers : ∀ h ∈ headers, ∀ c ∈ h.1 ++ h.2, c.toNat < 128
  token_names : ∀ h ∈ headers, h.1 ≠ [] ∧ ∀ b ∈ h.1.bytes, isToken b = true
  printable_values : ∀ h ∈ headers, (∀ b ∈ h.2.bytes, isValueByte b = true) ∧
    (∀ b ∈ h.2.bytes.head?, isBlank b = false) ∧ (∀ b ∈ h.2.bytes.getLast?, isBlank b = false)

namespace RequestText

def crlf : Bytes := [13, 10]

def field (h : Str × Str) : Bytes := h.1.bytes ++ 58 :: 32 :: (h.2.bytes ++ crlf)

def fields (r : RequestText) : Bytes := r.headers.flatMap field ++ crlf

/-- The head, up to and including its empty line. -/
def head (r : RequestText) : Bytes :=
  r.method.bytes ++ 32 :: (r.target.bytes ++ 32 :: (Str.bytes "HTTP/1.".toList ++
    (if r.minor then 0x31 else 0x30) :: (crlf ++ r.fields)))

def render (r : RequestText) : Bytes := r.head ++ r.body

/-- The slices such a request is parsed into. -/
def raw (r : RequestText) : RawRequest where
  method := some r.method
  path := some r.target
  version := some (if r.minor then 1 else 0)
  headers := r.headers.map fun h => (h.1, h.2.bytes)

end RequestText

theorem forall_of_all {α : Type} {P : α → Prop} [DecidablePred P] {l : List α}
    (h : l.all (P ·) = true) : ∀ a ∈ l, P a := by
  simpa using h

/-- `GET target HTTP/1.1` without fields or body. -/
def RequestText.get (target : Str) (hvisible : target.bytes.all isTargetByte = true)
    (hne : target ≠ []) : RequestText where
  method := "GET".toList
  target := target
  minor := true
  headers := []
  body := []
  ascii_method := forall_of_all (by decide)
  token_method := List.all_eq_true.mp (by decide)
  method_ne := by decide
  visible_target := List.all_eq_true.mp hvisible
  target_ne := hne
  ascii_headers := by simp
  token_names := by simp
  printable_values := by simp

/-- The conditions of `RequestText` on one field. -/
def fieldOk (h : Str × Str) : Bool :=
  (h.1 ++ h.2).all (·.toNat < 128) && h.1 != [] && h.1.bytes.all isToken &&
    h.2.bytes.all isValueByte && h.2.bytes.head?.all (!isBlank ·) &&
      h.2.bytes.getLast?.all (!isBlank ·)

theorem fieldOk_iff {h : Str × Str} : fieldOk h = true ↔ (∀ c ∈ h.1 ++ h.2, c.toNat < 128) ∧
    (h.1 ≠ [] ∧ ∀ b ∈ h.1.bytes, isToken b = true) ∧
      (∀ b ∈ h.2.bytes, isValueByte b = true) ∧ (∀ b ∈ h.2.bytes.head?, isBlank b = false) ∧
        ∀ b ∈ h.2.bytes.getLast?, isBlank b = false := by
  simp only [fieldOk, Bool.and_eq_true, List.all_eq_true, decide_eq_true_eq, bne_iff_ne,
    Option.all_eq_true, Option.mem_def, Bool.not_eq_true', and_assoc]

/-- `POST target HTTP/1.x` with these fields. -/
def RequestText.post (target : Str) (minor : Bool) (headers : List (Str × Str)) (body : Bytes)
    (hvisible : target.bytes.all isTargetByte = true) (hne : target ≠ [])
    (hheaders : headers.all fieldOk = true) : RequestText where
  method := "POST".toList
  target := target
  minor := minor
  headers := headers
  body := body
  ascii_method := forall_of_all (by decide)
  token_method := List.all_eq_true.mp (by decide)
  method_ne := by decide
  visible_target := List.all_eq_true.mp hvisible
  target_ne := hne
  ascii_headers h hh := (fieldOk_iff.mp (List.all_eq_true.mp hheaders h hh)).1
  token_names h hh := (fieldOk_iff.mp (List.all_eq_true.mp hheaders h hh)).2.1
  printable_values h hh := (fieldOk_iff.mp (List.all_eq_true.mp hheaders h hh)).2.2

/-- What the crate documents of canonical requests: the slices and the head
length, or `TooManyHeaders` past the slots given. -/
structure Canonical (hp : Httparse) : Prop where
  accepts : ∀ (slots : ℕ) (r : RequestText), r.headers.length ≤ slots →
    hp slots r.render = .ok (.complete r.head.length, r.raw)
  refuses : ∀ (slots : ℕ) (r : RequestText), slots < r.headers.length →
    hp slots r.render = .error .tooManyHeaders

/-- What the crate documents of complete requests: the request line is filled in. -/
def Filled (hp : Httparse) : Prop := ∀ slots buf n raw, hp slots buf = .ok (.complete n, raw) →
  raw.method.isSome ∧ raw.path.isSome ∧ raw.version.isSome

/-- A scanner step: a value with what follows it, more input wanted, or an error. -/
inductive Scan (α : Type) where
  | done (a : α) (rest : Bytes)
  | more
  | bad (e : HttparseError)

namespace Scan

variable {α β : Type}

def andThen : Scan α → (α → Bytes → Scan β) → Scan β
  | .done a rest, f => f a rest
  | .more, _ => .more
  | .bad e, _ => .bad e

@[simp] theorem done_andThen (a : α) (rest : Bytes) (f : α → Bytes → Scan β) :
    (Scan.done a rest).andThen f = f a rest := rfl

@[simp] theorem bad_andThen (e : HttparseError) (f : α → Bytes → Scan β) :
    (Scan.bad e).andThen f = .bad e := rfl

theorem done_of_andThen {x : Scan α} {f : α → Bytes → Scan β} {b : β} {rest : Bytes}
    (h : x.andThen f = .done b rest) : ∃ a rest', f a rest' = .done b rest := by
  cases x with
  | done a rest' => exact ⟨a, rest', h⟩
  | more => cases h
  | bad e => cases h

def word (p : UInt8 → Bool) (stop : UInt8) (e : HttparseError) (buf : Bytes) : Scan Bytes :=
  match buf.span p with
  | (_, []) => .more
  | (w, b :: rest) => if b = stop ∧ w ≠ [] then .done w rest else .bad e

def literal (e : HttparseError) : Bytes → Bytes → Scan Unit
  | [], rest => .done () rest
  | _ :: _, [] => .more
  | x :: xs, b :: rest => if x = b then literal e xs rest else .bad e

def newline : Bytes → Scan Unit
  | 13 :: 10 :: rest => .done () rest
  | 10 :: rest => .done () rest
  | [] => .more
  | [13] => .more
  | _ => .bad .newLine

def trim (w : Bytes) : Bytes := (w.dropWhile isBlank).rdropWhile isBlank

def value (buf : Bytes) : Scan Bytes :=
  match buf.span isValueByte with
  | (_, []) => .more
  | (w, rest) => (newline rest).andThen fun _ rest => .done (trim w) rest

def fields : ℕ → Bytes → Scan (List (Bytes × Bytes))
  | slots, buf => match newline buf with
    | .done _ rest => .done [] rest
    | .more => .more
    -- no empty line: a field follows
    | .bad _ => match slots with
      | 0 => .bad .tooManyHeaders
      | slots + 1 => (word isToken 58 .headerName buf).andThen fun name rest =>
        (value rest).andThen fun v rest =>
        (fields slots rest).andThen fun hs rest => .done ((name, v) :: hs) rest

def skipEmptyLines : Bytes → Bytes
  | 13 :: 10 :: rest => skipEmptyLines rest
  | 10 :: rest => skipEmptyLines rest
  | rest => rest

def minor : Bytes → Scan ℕ
  | [] => .more
  | b :: rest => if b = 0x30 then .done 0 rest else if b = 0x31 then .done 1 rest
    else .bad .version

def requestHead (slots : ℕ) (buf : Bytes) : Scan RawRequest :=
  (word isToken 32 .token (skipEmptyLines buf)).andThen fun m rest =>
  (word isTargetByte 32 .token rest).andThen fun u rest =>
  (literal .version (Str.bytes "HTTP/1.".toList) rest).andThen fun _ rest =>
  (minor rest).andThen fun v rest =>
  (newline rest).andThen fun _ rest =>
  (fields slots rest).andThen fun hs rest =>
  if (fromUtf8Lossy u).bytes = u then
    .done ⟨some (fromUtf8Lossy m), some (fromUtf8Lossy u), some v,
      hs.map fun h => (fromUtf8Lossy h.1, h.2)⟩ rest
  else .bad .token

end Scan

/-- A scanner that keeps the crate's contract. It stands in for the crate where a
theorem about every such scanner is run on a concrete buffer. -/
def referenceHttparse : Httparse := fun slots buf =>
  match Scan.requestHead slots buf with
  | .done raw rest => .ok (.complete (buf.length - rest.length), raw)
  | .more => .ok (.incomplete, ⟨none, none, none, []⟩)
  | .bad e => .error e

section RoundTrip
open Scan

theorem span_append {p : UInt8 → Bool} {w rest : Bytes} (hw : ∀ b ∈ w, p b = true)
    (hr : ∀ b ∈ rest.head?, p b = false) : (w ++ rest).span p = (w, rest) := by
  rw [List.span_eq_takeWhile_dropWhile, List.takeWhile_append_of_pos hw,
    List.dropWhile_append_of_pos hw]
  cases rest with
  | nil => simp
  | cons b rest =>
    have hb : p b = false := hr b rfl
    simp [hb]

theorem word_append {p : UInt8 → Bool} {stop : UInt8} (e : HttparseError) {w : Bytes}
    (rest : Bytes) (hw : ∀ b ∈ w, p b = true) (hne : w ≠ []) (hstop : p stop = false) :
    word p stop e (w ++ stop :: rest) = .done w rest := by
  have hspan : (w ++ stop :: rest).span p = (w, stop :: rest) :=
    span_append hw (by simpa using hstop)
  rw [word, hspan]
  exact if_pos ⟨rfl, hne⟩

theorem literal_append (e : HttparseError) (w rest : Bytes) :
    literal e w (w ++ rest) = .done () rest := by
  induction w with
  | nil => rfl
  | cons b w ih => rw [List.cons_append, literal, if_pos rfl, ih]

theorem newline_crlf (rest : Bytes) : newline (RequestText.crlf ++ rest) = .done () rest := rfl

theorem newline_token {b : UInt8} (hb : isToken b = true) (rest : Bytes) :
    newline (b :: rest) = .bad .newLine := by
  have h13 : b ≠ 13 := by rintro rfl; exact absurd hb (by decide)
  have h10 : b ≠ 10 := by rintro rfl; exact absurd hb (by decide)
  unfold newline
  split <;> simp_all

theorem skipEmptyLines_token {b : UInt8} (hb : isToken b = true) (rest : Bytes) :
    skipEmptyLines (b :: rest) = b :: rest := by
  have h13 : b ≠ 13 := by rintro rfl; exact absurd hb (by decide)
  have h10 : b ≠ 10 := by rintro rfl; exact absurd hb (by decide)
  unfold skipEmptyLines
  split <;> simp_all

/-- The blank put before a value is the only one trimmed. -/
theorem trim_value {v : Bytes} (hhead : ∀ b ∈ v.head?, isBlank b = false)
    (hlast : ∀ b ∈ v.getLast?, isBlank b = false) : trim (32 :: v) = v := by
  have hdrop : (32 :: v).dropWhile isBlank = v := by
    rw [List.dropWhile_cons_of_pos (by decide)]
    cases v with
    | nil => rfl
    | cons b v => exact List.dropWhile_cons_of_neg (by simp [hhead b rfl])
  rw [trim, hdrop]
  by_cases hv : v = []
  · rw [hv]
    rfl
  · rw [List.rdropWhile_eq_self_iff]
    intro _
    have h := hlast (v.getLast hv) (List.getLast?_eq_getLast_of_ne_nil hv)
    simp [h]

theorem value_append {v : Bytes} (rest : Bytes) (hv : ∀ b ∈ v, isValueByte b = true)
    (hhead : ∀ b ∈ v.head?, isBlank b = false) (hlast : ∀ b ∈ v.getLast?, isBlank b = false) :
    value (32 :: (v ++ (RequestText.crlf ++ rest))) = .done v rest := by
  have hspan : (32 :: (v ++ (RequestText.crlf ++ rest))).span isValueByte =
      (32 :: v, RequestText.crlf ++ rest) := by
    rw [← List.cons_append]
    apply span_append
    · intro b hb
      rcases List.mem_cons.mp hb with rfl | hb
      · decide
      · exact hv b hb
    · intro b hb
      obtain rfl : b = 13 := by simpa [RequestText.crlf] using hb.symm
      decide
  rw [value, hspan]
  change (newline (RequestText.crlf ++ rest)).andThen _ = _
  rw [newline_crlf, done_andThen, trim_value hhead hlast]

theorem bytes_ne_nil {s : Str} (h : s ≠ []) : s.bytes ≠ [] := by
  cases s with
  | nil => exact absurd rfl h
  | cons c s =>
    have hc : String.utf8EncodeChar c ≠ [] := by
      unfold String.utf8EncodeChar
      dsimp only
      split_ifs <;> simp
    simp [hc]

variable {hs : List (Str × Str)} {slots : ℕ}

/-- The conditions of `RequestText` on its header list. -/
def FieldsOk (hs : List (Str × Str)) : Prop := ∀ h ∈ hs,
  (h.1 ≠ [] ∧ ∀ b ∈ h.1.bytes, isToken b = true) ∧
  (∀ b ∈ h.2.bytes, isValueByte b = true) ∧
    (∀ b ∈ h.2.bytes.head?, isBlank b = false) ∧ (∀ b ∈ h.2.bytes.getLast?, isBlank b = false)

theorem fields_cons {h : Str × Str} (hh : FieldsOk [h]) (slots : ℕ) (rest : Bytes) :
    fields (slots + 1) (RequestText.field h ++ rest) =
      (fields slots rest).andThen fun hs rest => .done ((h.1.bytes, h.2.bytes) :: hs) rest := by
  obtain ⟨⟨hne, htok⟩, hval, hhead, hlast⟩ := hh h (by simp)
  have hbuf : RequestText.field h ++ rest = h.1.bytes ++ 58 :: (32 :: (h.2.bytes ++
      (RequestText.crlf ++ rest))) := by
    simp [RequestText.field]
  obtain ⟨b, w, hw⟩ := List.exists_cons_of_ne_nil (bytes_ne_nil hne)
  have hnew : newline (RequestText.field h ++ rest) = .bad .newLine := by
    rw [hbuf, hw, List.cons_append]
    exact newline_token (htok b (by simp [hw])) _
  rw [fields, hnew]
  dsimp only
  rw [hbuf, word_append _ _ htok (bytes_ne_nil hne) (by decide), done_andThen,
    value_append _ hval hhead hlast, done_andThen]

theorem fields_append (hok : FieldsOk hs) (hlen : hs.length ≤ slots) (rest : Bytes) :
    fields slots (hs.flatMap RequestText.field ++ (RequestText.crlf ++ rest)) =
      .done (hs.map fun h => (h.1.bytes, h.2.bytes)) rest := by
  induction hs generalizing slots with
  | nil =>
    rw [fields.eq_def]
    rfl
  | cons h hs ih =>
    obtain ⟨slots, rfl⟩ : ∃ k, slots = k + 1 := ⟨slots - 1, by simp at hlen; omega⟩
    rw [List.flatMap_cons, List.append_assoc,
      fields_cons (fun x hx => hok x (by simp_all)),
      ih (fun x hx => hok x (by simp [hx])) (by simpa using hlen)]
    rfl

theorem fields_overflow (hok : FieldsOk hs) (hlen : slots < hs.length) (rest : Bytes) :
    fields slots (hs.flatMap RequestText.field ++ (RequestText.crlf ++ rest)) =
      .bad .tooManyHeaders := by
  induction hs generalizing slots with
  | nil => simp at hlen
  | cons h hs ih =>
    cases slots with
    | zero =>
      obtain ⟨⟨hne, htok⟩, -⟩ := hok h (by simp)
      obtain ⟨b, w, hw⟩ := List.exists_cons_of_ne_nil (bytes_ne_nil hne)
      have hnew : newline ((h :: hs).flatMap RequestText.field ++ (RequestText.crlf ++ rest)) =
          .bad .newLine := by
        rw [List.flatMap_cons, RequestText.field, hw]
        exact newline_token (htok b (by simp [hw])) _
      rw [fields, hnew]
    | succ slots =>
      rw [List.flatMap_cons, List.append_assoc,
        fields_cons (fun x hx => hok x (by simp_all)),
        ih (fun x hx => hok x (by simp [hx])) (by simpa using hlen)]
      rfl

theorem RequestText.fieldsOk (r : RequestText) : FieldsOk r.headers := fun h hh =>
  ⟨r.token_names h hh, r.printable_values h hh⟩

theorem requestHead_render (r : RequestText) (slots : ℕ) :
    requestHead slots r.render =
      (fields slots (r.headers.flatMap RequestText.field ++ (RequestText.crlf ++ r.body))).andThen
        fun hs rest => .done ⟨some r.method, some r.target, some (if r.minor then 1 else 0),
          hs.map fun h => (fromUtf8Lossy h.1, h.2)⟩ rest := by
  have hrender : r.render = r.method.bytes ++ 32 :: (r.target.bytes ++ 32 ::
      (Str.bytes "HTTP/1.".toList ++ (if r.minor then 0x31 else 0x30) ::
        (RequestText.crlf ++ (r.headers.flatMap RequestText.field ++
          (RequestText.crlf ++ r.body))))) := by
    simp [RequestText.render, RequestText.head, RequestText.fields]
  have hskip : skipEmptyLines r.render = r.render := by
    obtain ⟨b, w, hw⟩ := List.exists_cons_of_ne_nil (bytes_ne_nil r.method_ne)
    rw [hrender, hw]
    exact skipEmptyLines_token (r.token_method b (by simp [hw])) _
  have hminor : ∀ rest : Bytes, minor ((if r.minor then 0x31 else 0x30) :: rest) =
      .done (if r.minor then 1 else 0) rest := by
    intro rest
    cases r.minor <;> rfl
  rw [requestHead, hskip, hrender,
    word_append _ _ r.token_method (bytes_ne_nil r.method_ne) (by decide), done_andThen,
    word_append _ _ r.visible_target (bytes_ne_nil r.target_ne) (by decide), done_andThen,
    literal_append, done_andThen, hminor, done_andThen, newline_crlf, done_andThen]
  simp only [fromUtf8Lossy_bytes, ↓reduceIte]

theorem referenceHttparse_canonical : Canonical referenceHttparse where
  accepts slots r hlen := by
    have hnames : (r.headers.map fun h => (h.1.bytes, h.2.bytes)).map
        (fun h : Bytes × Bytes => (fromUtf8Lossy h.1, h.2)) =
        r.headers.map fun h => (h.1, h.2.bytes) := by
      rw [List.map_map]
      apply List.map_congr_left
      intro h _
      simp [fromUtf8Lossy_bytes]
    have hlen' : r.render.length - r.body.length = r.head.length := by
      simp [RequestText.render]
    simp only [referenceHttparse, requestHead_render, fields_append r.fieldsOk hlen, done_andThen,
      hnames, hlen']
    rfl
  refuses slots r hlen := by
    simp only [referenceHttparse, requestHead_render, fields_overflow r.fieldsOk hlen,
      bad_andThen]

theorem referenceHttparse_filled : Filled referenceHttparse := by
  intro slots buf n raw h
  unfold referenceHttparse at h
  cases hhead : requestHead slots buf with
  | more =>
    rw [hhead] at h
    cases h
  | bad e =>
    rw [hhead] at h
    cases h
  | done raw' rest =>
    rw [hhead] at h
    obtain rfl : raw' = raw := (Prod.mk.inj (Except.ok.inj h)).2
    unfold requestHead at hhead
    obtain ⟨m, r1, hhead⟩ := done_of_andThen hhead
    obtain ⟨u, r2, hhead⟩ := done_of_andThen hhead
    obtain ⟨-, r3, hhead⟩ := done_of_andThen hhead
    obtain ⟨v, r4, hhead⟩ := done_of_andThen hhead
    obtain ⟨-, r5, hhead⟩ := done_of_andThen hhead
    obtain ⟨hs, r6, hhead⟩ := done_of_andThen hhead
    split_ifs at hhead
    obtain rfl := (Scan.done.inj hhead).1
    exact ⟨rfl, rfl, rfl⟩

end RoundTrip

end KernelEngine.Http
