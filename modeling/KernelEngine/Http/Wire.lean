import KernelEngine.Http.Builder
import KernelEngine.Lib.Codec
import Mathlib.Data.Finmap

namespace KernelEngine.Http
open Rust Codec

/-- What a response says, apart from the order of its headers. -/
structure Message where
  statusCode : ℕ
  statusText : Str
  headers : Finmap fun _ : Str => Str
  body : Bytes

def HttpResponse.message (r : HttpResponse) : Message :=
  ⟨r.statusCode, r.statusText, r.headers.toFinmap, r.body⟩

namespace Wire

def crlf : Bytes := [13, 10]

def parseDecimal (s : Str) : Option ℕ :=
  if s ≠ [] ∧ s.all Char.isDigit then some (Nat.ofDigitChars 10 s 0) else none

/-- The version, the code and the rest of the status line. -/
def parseStatus (line : Bytes) : Option (ℕ × Str) := do
  let text ← fromUtf8 line
  let (version, text) ← Decoder.upTo " ".toList text
  if version ≠ "HTTP/1.1".toList then none
  let (code, statusText) ← Decoder.upTo " ".toList text
  return (← parseDecimal code, statusText)

/-- A header line, or the empty line that ends the head. -/
def parseHeader (line : Bytes) : Option (Option (Str × Str)) :=
  if line = [] then some none
  else do
    let header ← Decoder.upTo ": ".toList (← fromUtf8 line)
    return some header

def contentLength (headers : List (Str × Str)) : Option ℕ := do
  let header ← headers.find? fun h => IsContentLength h.1
  parseDecimal header.2

def status : Decoder UInt8 (ℕ × Str) := (Decoder.upTo crlf).map? parseStatus

def headers : Decoder UInt8 (List (Str × Str)) :=
  (Decoder.block ((Decoder.upTo crlf).map? parseHeader) Option.isNone).map? fun lines =>
    some lines.reduceOption

/-- A header as an entry of the map. -/
def entry (h : Str × Str) : (_ : Str) × Str := ⟨h.1, h.2⟩

/-- Exactly as many bytes as the headers announce. -/
def body (headers : List (Str × Str)) : Decoder UInt8 Bytes := fun s =>
  (contentLength headers).bind fun n => Decoder.exactly n s

/-- A reference reader: the status line, the headers up to the empty line, and a body of
the announced length. -/
def response : Decoder UInt8 Message :=
  status.bind fun status => headers.bind fun headers => (body headers).map? fun body =>
    some ⟨status.1, status.2, (headers.map entry).toFinmap, body⟩

/-- All responses of a connection. -/
def responses (stream : Bytes) : Option (List Message) := Decoder.all response stream

section Reading

variable {s name value : Str} {r : HttpResponse} {order : List (Str × Str)}

theorem parseDecimal_decimal (n : ℕ) : parseDecimal (decimal n) = some n := by
  have hdigits : decimal n ≠ [] ∧ (decimal n).all Char.isDigit = true :=
    ⟨Nat.toDigits_ne_nil, List.all_eq_true.mpr fun _ => isDigit_of_mem_decimal⟩
  rw [parseDecimal, if_pos hdigits, decimal, Nat.ofDigitChars_ten_toDigits]

/-- A text without a carriage return is a line. -/
theorem reads_line (h : '\r' ∉ s) :
    Reads (Decoder.upTo crlf) (Str.bytes (s ++ "\r\n".toList)) s.bytes := by
  rw [bytes_append]
  exact reads_upTo (not_mem_bytes (by decide) h)

theorem cr_not_mem_statusTextForCode (code : ℕ) : '\r' ∉ statusTextForCode code := by
  unfold statusTextForCode
  split <;> decide

theorem parseStatus_line (code : ℕ) (text : Str) :
    parseStatus (Str.bytes ("HTTP/1.1 ".toList ++ decimal code ++ " ".toList ++ text)) =
      some (code, text) := by
  have hversion : Reads (Decoder.upTo " ".toList) ("HTTP/1.1".toList ++ " ".toList)
      "HTTP/1.1".toList := reads_upTo (by decide)
  have hcode : Reads (Decoder.upTo " ".toList) (decimal code ++ " ".toList) (decimal code) :=
    reads_upTo (not_mem_decimal (by decide))
  have hsplit : "HTTP/1.1 ".toList ++ decimal code ++ " ".toList ++ text =
      "HTTP/1.1".toList ++ " ".toList ++ (decimal code ++ " ".toList ++ text) := by
    simp only [List.append_assoc]
    rfl
  rw [parseStatus, fromUtf8_bytes, hsplit, Option.bind_eq_bind, Option.bind_some, hversion,
    Option.bind_eq_bind, Option.bind_some]
  dsimp only
  rw [if_neg (not_not_intro rfl), hcode, Option.bind_eq_bind, Option.bind_some]
  dsimp only
  rw [parseDecimal_decimal]
  rfl

theorem parseHeader_line (hname : ':' ∉ name) :
    parseHeader (Str.bytes (name ++ ": ".toList ++ value)) = some (some (name, value)) := by
  have hne : Str.bytes (name ++ ": ".toList ++ value) ≠ [] := by
    rw [bytes_append, bytes_append]
    exact List.append_ne_nil_of_left_ne_nil
      (List.append_ne_nil_of_right_ne_nil _ (by decide)) _
  have hread : Decoder.upTo ": ".toList (name ++ ": ".toList ++ value) = some (name, value) :=
    reads_upTo hname value
  rw [parseHeader, if_neg hne, fromUtf8_bytes, Option.bind_eq_bind, Option.bind_some, hread]
  rfl

theorem reads_status (h : '\r' ∉ r.statusText) :
    Reads status r.statusLine (r.statusCode, r.statusText) := by
  refine (reads_line ?_).map? (parseStatus_line r.statusCode r.statusText)
  have hdigits : '\r' ∉ decimal r.statusCode := not_mem_decimal (by decide)
  simp only [List.mem_append, not_or]
  exact ⟨⟨⟨by decide, hdigits⟩, by decide⟩, h⟩

theorem reads_header {h : Str × Str} (hline : FitsLine h) :
    Reads ((Decoder.upTo crlf).map? parseHeader) (HttpResponse.headerLine h) (some h) := by
  refine (reads_line ?_).map? (parseHeader_line hline.name.1)
  simp only [List.mem_append, not_or]
  exact ⟨⟨hline.name.2.1, by decide⟩, hline.value.1⟩

theorem headerLine_ne_nil (h : Str × Str) : HttpResponse.headerLine h ≠ [] := by
  rw [HttpResponse.headerLine, bytes_append]
  exact List.append_ne_nil_of_right_ne_nil _ (by decide)

/-- The lines of the head are read up to the empty one. -/
theorem reads_headers (h : ∀ header ∈ order, FitsLine header) :
    Reads headers (order.flatMap HttpResponse.headerLine ++ Str.bytes "\r\n".toList) order := by
  let lines := order.map fun header => (HttpResponse.headerLine header, some header)
  have hlines : ∀ line ∈ lines, (Reads ((Decoder.upTo crlf).map? parseHeader) line.1 line.2 ∧
      line.2.isNone = false) ∧ line.1 ≠ [] :=
    List.forall_mem_map.mpr fun header hmem =>
      ⟨⟨reads_header (h header hmem), rfl⟩, headerLine_ne_nil header⟩
  have hend : Reads ((Decoder.upTo crlf).map? parseHeader) (Str.bytes "\r\n".toList) none :=
    (reads_line (s := []) List.not_mem_nil).map? rfl
  have hblock := reads_block hlines hend rfl (by decide)
  rw [List.flatMap_map, List.map_map] at hblock
  refine hblock.map? (congrArg some ?_)
  exact (List.filterMap_map ..).trans List.filterMap_some

theorem entry_injective : Function.Injective entry := by
  intro h h' heq
  obtain ⟨hname, hvalue⟩ := Sigma.mk.inj heq
  exact Prod.ext hname (eq_of_heq hvalue)

/-- The order is one of the map itself. -/
theorem perm_entries (h : order.Perm r.fields) : (order.map entry).Perm r.headers.entries := by
  have hperm := h.map entry
  rw [HttpResponse.fields, List.map_map] at hperm
  exact hperm.trans (.of_eq (List.map_id _))

theorem mem_order (h : order.Perm r.fields) :
    (name, value) ∈ order ↔ r.headers.lookup name = some value := by
  rw [← Option.mem_def, AList.mem_lookup_iff, ← (perm_entries h).mem_iff]
  exact (List.mem_map_of_injective entry_injective).symm

theorem toFinmap_order (h : order.Perm r.fields) :
    (order.map entry).toFinmap = r.headers.toFinmap := by
  refine Finmap.ext_lookup fun name => ?_
  have hperm := perm_entries h
  rw [Finmap.dlookup_list_toFinmap, Finmap.lookup_toFinmap]
  exact List.perm_dlookup name ((List.perm_nodupKeys hperm).mpr r.headers.nodupKeys) hperm

/-- The one header that speaks of the length has the length of the body. -/
theorem contentLength_order (hsound : Sound r) (hlen : Measured r) (h : order.Perm r.fields) :
    contentLength order = some r.body.length := by
  have hcl : IsContentLength "Content-Length".toList := by decide
  have hsome : (order.find? fun header => IsContentLength header.1).isSome :=
    List.find?_isSome.mpr ⟨_, (mem_order h).mpr hlen, decide_eq_true hcl⟩
  obtain ⟨⟨name, value⟩, hfind⟩ := Option.isSome_iff_exists.mp hsome
  have hlookup := (mem_order h).mp (List.mem_of_find?_eq_some hfind)
  have hfound := List.find?_some hfind
  have hname := (hsound.headers name value hlookup).2 (of_decide_eq_true hfound)
  have hvalue : value = decimal r.body.length := by
    rw [hname, hlen] at hlookup
    exact (Option.some.inj hlookup).symm
  rw [contentLength, hfind, hvalue]
  exact parseDecimal_decimal _

theorem toBytes_ne_nil (r : HttpResponse) (order : List (Str × Str)) : r.toBytes order ≠ [] := by
  have hcrlf : Str.bytes "\r\n".toList ≠ [] := by decide
  exact List.append_ne_nil_of_left_ne_nil (List.append_ne_nil_of_right_ne_nil _ hcrlf) _

/-- What is written is read, whatever comes behind it. -/
theorem reads_response (hsound : Sound r) (hlen : Measured r) (h : order.Perm r.fields) :
    Reads response (r.toBytes order) r.message := by
  have hstatus : Reads status r.statusLine (r.statusCode, r.statusText) :=
    reads_status (hsound.status ▸ cr_not_mem_statusTextForCode r.statusCode)
  have hheaders : Reads headers _ order :=
    reads_headers fun header hmem => (hsound.headers _ _ ((mem_order h).mp hmem)).1
  have hbody : Reads (body order) r.body r.body := by
    intro rest
    rw [body, contentLength_order hsound hlen h]
    exact reads_exactly r.body rest
  have hread : Reads response (r.statusLine ++ (_ ++ r.body)) _ :=
    hstatus.bind (hheaders.bind (hbody.map? rfl))
  rw [toFinmap_order h] at hread
  rw [HttpResponse.toBytes, List.append_assoc, List.append_assoc]
  rw [List.append_assoc] at hread
  exact hread

end Reading

end Wire

end KernelEngine.Http
