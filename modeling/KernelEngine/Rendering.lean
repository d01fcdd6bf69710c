import KernelEngine.Http.Fields

namespace KernelEngine.Rendering
open Rust Http Assoc HttpRequest

/-- The value of the last field whose name matches without regard to case. -/
def lastValue (r : RequestText) (name : Str) : Option Str :=
  (last (fun h => toLowercase h.1) (toLowercase name) r.headers).map Prod.snd

theorem lookup_render (r : RequestText) (name : Str) :
    (r.raw.headers.foldl insertHeader ∅).lookup (toLowercase name) = lastValue r name := by
  have hnamed : ∀ h ∈ r.raw.headers, decide (h.1 ≠ []) = true := by
    intro h hh
    obtain ⟨h', hh', rfl⟩ := List.mem_map.mp hh
    exact decide_eq_true (r.token_names h' hh').1
  rw [foldl_insertHeader, lookup_fill_empty, List.filter_eq_self.mpr hnamed, RequestText.raw,
    last_map, Option.map_map, lastValue]
  congr 1
  funext h
  exact fromUtf8Lossy_bytes h.2

/-- A request read from its canonical rendering is the one that was rendered. Repeated
fields are joined into the last of them. -/
theorem parse_inverts_render {httparse : Httparse} (hc : Canonical httparse) (r : RequestText) :
    (r.headers.length ≤ 64 → ∃ req, parse httparse r.render = .ok req ∧
      req.method = r.method ∧ req.path = r.target ∧ req.version = (if r.minor then 1 else 0) ∧
      req.body = r.body ∧ ∀ name, req.getHeader name = lastValue r name) ∧
    (64 < r.headers.length → ∃ e, parse httparse r.render = .error e) := by
  constructor
  · intro hlen
    refine ⟨_, parse_render hc r hlen, rfl, rfl, rfl, rfl, fun name => ?_⟩
    exact lookup_render r name
  · exact fun hlen => ⟨_, parse_render_overflow hc r hlen⟩

/-- `POST /größe HTTP/1.0` with a field given twice. -/
def repeatedRequest : RequestText :=
  .post "/größe".toList false
    [("X-Tag".toList, "a".toList), ("Host".toList, []), ("x-tAG".toList, "b c".toList)] [0xFF]
    (by decide) (by decide) (by decide)

theorem repeated_read_back : ∃ req, parse referenceHttparse repeatedRequest.render = .ok req ∧
    req.path = "/größe".toList ∧ req.version = 0 ∧ req.body = [0xFF] ∧
    req.getHeader "X-TAG".toList = some "b c".toList ∧ req.getHeader "host".toList = some [] ∧
    req.getHeader "accept".toList = none := by
  obtain ⟨req, hparse, -, hpath, hversion, hbody, hfields⟩ :=
    (parse_inverts_render referenceHttparse_canonical repeatedRequest).1 (by decide)
  refine ⟨req, hparse, hpath, hversion, hbody, ?_, ?_, ?_⟩
  · rw [hfields]
    decide
  · rw [hfields]
    decide
  · rw [hfields]
    decide

end KernelEngine.Rendering
