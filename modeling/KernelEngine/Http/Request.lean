import KernelEngine.Http.Httparse
import Mathlib.Data.List.AList

namespace KernelEngine.Http
open Rust

/-- A `HashMap<String, String>`. -/
abbrev HeaderMap := AList fun _ : Str => Str

structure HttpRequest where
  method : Str
  path : Str
  version : ℕ
  headers : HeaderMap
  body : Bytes

namespace HttpRequest

/-- One turn of the loop over `req.headers`. -/
def insertHeader (map : HeaderMap) (h : Str × Bytes) : HeaderMap :=
  if h.1 = [] then map else map.insert (toLowercase h.1) (fromUtf8Lossy h.2)

def okOr {α : Type} (o : Option α) (message : Anyhow) : Except Anyhow α :=
  match o with
  | some a => .ok a
  | none => .error message

/-- `HttpRequest::parse`. -/
def parse (httparse : Httparse) (buf : Bytes) : Except Anyhow HttpRequest := do
  let (status, req) ← (httparse 64 buf).mapError fun e =>
    "Failed to parse HTTP request: ".toList ++ e.debug
  match status with
  | .incomplete => throw "Incomplete HTTP request".toList
  | .complete bodyOffset => do
    let method ← okOr req.method "Missing method".toList
    let path ← okOr req.path "Missing path".toList
    let version ← okOr req.version "Missing version".toList
    let headers := req.headers.foldl insertHeader ∅
    let body := if bodyOffset < buf.length then buf.drop bodyOffset else []
    return ⟨method, path, version, headers, body⟩

/-- `HttpRequest::get_header`. -/
def getHeader (r : HttpRequest) (name : Str) : Option Str := r.headers.lookup (toLowercase name)

/-- `HttpRequest::clean_path`: the path up to its first `?`. -/
def cleanPath (r : HttpRequest) : Str := r.path.takeWhile (· ≠ '?')

theorem parse_of_complete {httparse : Httparse} {buf : Bytes} {n : ℕ} {raw : RawRequest}
    {m p : Str} {v : ℕ} (h : httparse 64 buf = .ok (.complete n, raw))
    (hm : raw.method = some m) (hp : raw.path = some p) (hv : raw.version = some v) :
    parse httparse buf = .ok ⟨m, p, v, raw.headers.foldl insertHeader ∅, buf.drop n⟩ := by
  have hbody : (if n < buf.length then buf.drop n else []) = buf.drop n := by
    split_ifs with hn
    · rfl
    · exact (List.drop_eq_nil_of_le (by omega)).symm
  simp only [parse, h, hm, hp, hv, okOr, Except.mapError, bind, Except.bind, hbody]
  rfl

theorem parse_of_error {httparse : Httparse} {buf : Bytes} {e : HttparseError}
    (h : httparse 64 buf = .error e) :
    parse httparse buf = .error ("Failed to parse HTTP request: ".toList ++ e.debug) := by
  simp only [parse, h, Except.mapError, bind, Except.bind]

/-- Canonical requests are accepted with their own slices unless they have more
fields than there are slots. -/
theorem parse_render {httparse : Httparse} (hc : Canonical httparse) (r : RequestText)
    (hlen : r.headers.length ≤ 64) :
    parse httparse r.render = .ok ⟨r.method, r.target, if r.minor then 1 else 0,
      r.raw.headers.foldl insertHeader ∅, r.body⟩ := by
  rw [parse_of_complete (hc.accepts 64 r hlen) rfl rfl rfl]
  simp [RequestText.render]

theorem parse_render_overflow {httparse : Httparse} (hc : Canonical httparse) (r : RequestText)
    (hlen : 64 < r.headers.length) :
    parse httparse r.render =
      .error ("Failed to parse HTTP request: ".toList ++ HttparseError.tooManyHeaders.debug) :=
  parse_of_error (hc.refuses 64 r hlen)

end HttpRequest

end KernelEngine.Http
