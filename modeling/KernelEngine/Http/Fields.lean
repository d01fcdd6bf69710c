import KernelEngine.Http.Request
import KernelEngine.Lib.Assoc
import KernelEngine.Rust.Number

namespace KernelEngine.Http
open Rust Assoc

namespace HttpRequest

/-- `HttpRequest::is_keep_alive`. -/
def isKeepAlive (r : HttpRequest) : Bool :=
  match r.getHeader "connection".toList with
  | some connection => toLowercase connection == "keep-alive".toList
  | none => 1 ≤ r.version

/-- `HttpRequest::content_length`. -/
def contentLength (r : HttpRequest) : Option ℕ :=
  (r.getHeader "content-length".toList).bind parseUsize

/-- `HttpRequest::has_body`. -/
def hasBody (r : HttpRequest) : Bool := 0 < r.contentLength.getD 0 || !r.body.isEmpty

/-- The name and the value that the map has for a field. -/
def fieldName (h : Str × Bytes) : Str := toLowercase h.1

def fieldValue (h : Str × Bytes) : Str := fromUtf8Lossy h.2

/-- The values of the fields with a given name in lower case, in order. -/
def fieldValues (name : Str) (headers : List (Str × Bytes)) : List Bytes :=
  (headers.filter fun h => fieldName h = name).map Prod.snd

section Lookup

variable {httparse : Httparse} {buf : Bytes} {req : HttpRequest} {raw : RawRequest} {k : Str}
  {headers : List (Str × Bytes)}

theorem foldl_insertHeader (m : HeaderMap) (headers : List (Str × Bytes)) :
    headers.foldl insertHeader m = fill fieldName fieldValue m (headers.filter (·.1 ≠ [])) := by
  induction headers generalizing m with
  | nil => rfl
  | cons h headers ih =>
    rw [List.foldl_cons, ih, insertHeader]
    split_ifs with hempty
    · rw [List.filter_cons_of_neg (by simpa using hempty)]
    · rw [List.filter_cons_of_pos (by simpa using hempty)]
      rfl

/-- Fields without a name are skipped, and none has an empty name in lower case but
those. -/
theorem lookup_headers (hk : k ≠ []) (headers : List (Str × Bytes)) :
    (headers.foldl insertHeader ∅).lookup k = (last fieldName k headers).map fieldValue := by
  rw [foldl_insertHeader, lookup_fill_empty, last_filter]
  rintro h - rfl
  rw [decide_eq_true_eq]
  exact fun hempty => hk (by rw [fieldName, hempty]; rfl)

theorem last_fieldName (k : Str) (headers : List (Str × Bytes)) :
    (last fieldName k headers).map Prod.snd = (fieldValues k headers).getLast? := by
  rw [last, ← List.head?_filter, fieldValues, List.getLast?_map, ← List.head?_reverse,
    List.filter_reverse]

/-- The last field with the name is the one that is looked up. -/
theorem lookup_fieldValues (hk : k ≠ []) (headers : List (Str × Bytes)) :
    (headers.foldl insertHeader ∅).lookup k =
      (fieldValues k headers).getLast?.map fromUtf8Lossy := by
  rw [lookup_headers hk, ← last_fieldName, Option.map_map]
  rfl

theorem okOr_eq_ok {α : Type} {o : Option α} {message : Anyhow} {a : α} :
    okOr o message = .ok a ↔ o = some a := by
  cases o <;> simp [okOr]

theorem parse_ok_iff : parse httparse buf = .ok req ↔ ∃ n raw,
    httparse 64 buf = .ok (.complete n, raw) ∧ raw.method = some req.method ∧
      raw.path = some req.path ∧ raw.version = some req.version ∧
      req.headers = raw.headers.foldl insertHeader ∅ ∧ req.body = buf.drop n := by
  constructor
  · intro hparse
    obtain ⟨⟨status, raw⟩, hp, h⟩ := bind_eq_ok.mp hparse
    rw [mapError_eq_ok] at hp
    cases status with
    | incomplete => cases h
    | complete n =>
      obtain ⟨m, hm, h⟩ := bind_eq_ok.mp h
      obtain ⟨p, hpath, h⟩ := bind_eq_ok.mp h
      obtain ⟨v, hv, -⟩ := bind_eq_ok.mp h
      rw [okOr_eq_ok] at hm hpath hv
      rw [parse_of_complete hp hm hpath hv] at hparse
      obtain rfl := Except.ok.inj hparse
      exact ⟨n, raw, hp, hm, hpath, hv, rfl, rfl⟩
  · rintro ⟨n, raw, hp, hm, hpath, hv, hheaders, hbody⟩
    rw [parse_of_complete hp hm hpath hv, ← hheaders, ← hbody]

theorem headers_of_parse {n : ℕ} (hparse : parse httparse buf = .ok req)
    (hraw : httparse 64 buf = .ok (.complete n, raw)) :
    req.headers = raw.headers.foldl insertHeader ∅ := by
  obtain ⟨n', raw', hraw', -, -, -, hheaders, -⟩ := parse_ok_iff.mp hparse
  obtain rfl := (Prod.mk.inj (Except.ok.inj (hraw.symm.trans hraw'))).2
  exact hheaders

/-- What `get_header` finds for a name in lower case. -/
theorem getHeader_eq {name : Str} (hlower : toLowercase name = name) (hname : name ≠ [])
    (h : req.headers = raw.headers.foldl insertHeader ∅) :
    req.getHeader name = (fieldValues name raw.headers).getLast?.map fromUtf8Lossy := by
  rw [getHeader, hlower, h, lookup_fieldValues hname]

end Lookup

end HttpRequest

end KernelEngine.Http
