import KernelEngine.Config
import KernelEngine.File.Mmap
import KernelEngine.Http.Response
import KernelEngine.Rust.Path

namespace KernelEngine.Worker
open Rust File Http

/-- `Reactor`, with the parser crate it calls. -/
structure Reactor where
  config : ServerConfig
  httparse : Httparse

/-- The two counters of `Metrics`. Each is a `u64` that wraps. -/
structure Metrics where
  requestsTotal : ℕ
  bytesSent : ℕ
  deriving DecidableEq

/-- `IntCounter::inc_by`. -/
def incBy (c n : ℕ) : ℕ := (c + n) % 2 ^ 64

/-- What serving one request reads from outside: the file system, and the text
the metrics encoder makes of the registry. -/
structure Surroundings where
  fs : Filesystem
  encoded : Except Anyhow Bytes

namespace Reactor

/-- The server as started without options. -/
def stock : Reactor := ⟨ServerConfig.default 1 true, referenceHttparse⟩

/-- The content type `handle_static_file` gives an extension. -/
def contentType (ext : Str) : Str :=
  if ext = "html".toList then "text/html".toList
  else if ext = "css".toList then "text/css".toList
  else if ext = "js".toList then "application/javascript".toList
  else if ext = "json".toList then "application/json".toList
  else if ext = "png".toList then "image/png".toList
  else if ext = "jpg".toList ∨ ext = "jpeg".toList then "image/jpeg".toList
  else "application/octet-stream".toList

/-- The path `handle_static_file` opens; none where the slice `[1..]` panics. -/
def staticPath (r : Reactor) (req : HttpRequest) : Option Str :=
  (dropByte req.cleanPath).map (Path.join r.config.staticDir)

/-- The 200 response made of a mapped file. -/
def fileResponse (path : Str) (mmap : MmapFile) : HttpResponse :=
  let response := HttpResponse.ok.setBody mmap.asSlice
  match Path.extension path with
  | some ext => response.withHeader "Content-Type".toList (contentType ext)
  | none => response

/-- `Reactor::handle_static_file`. -/
def handleStaticFile (r : Reactor) (fs : Filesystem) (req : HttpRequest) :
    Except Fault HttpResponse :=
  match r.staticPath req with
  | none => .error .panicked
  | some path =>
    if fs.exist path = false then .ok HttpResponse.notFound
    else match MmapFile.new fs path with
      | .error e => .error (.error e)
      -- `set_body` copies the bytes through the mapping
      | .ok mmap => if mmap.backed then .ok (fileResponse path mmap) else .error .killed

/-- The routes of `handle_dynamic`. -/
inductive Endpoint where
  | health
  | metrics
  | stats
  deriving DecidableEq, Repr

def endpoint (req : HttpRequest) : Option Endpoint :=
  if req.method = "GET".toList then
    if req.cleanPath = "/api/health".toList then some .health
    else if req.cleanPath = "/api/metrics".toList then some .metrics
    else if req.cleanPath = "/api/stats".toList then some .stats
    else none
  else none

/-- `serde_json` writes the keys of a map in order. -/
def healthJson : Str := "\x7b\"status\":\"healthy\",\"uptime\":0\x7d".toList

def statsJson (m : Metrics) : Str :=
  "\x7b\"bytes_sent\":".toList ++ decimal m.bytesSent ++ ",\"requests\":".toList ++
    decimal m.requestsTotal ++ "\x7d".toList

/-- `Reactor::handle_dynamic`. -/
def handleDynamic (m : Metrics) (encoded : Except Anyhow Bytes) (req : HttpRequest) :
    Except Fault HttpResponse :=
  match endpoint req with
  | some .health => .ok (HttpResponse.ok.json (some healthJson.bytes))
  | some .metrics => match encoded with
    | .error e => .error (.error e)
    | .ok buffer => .ok ((HttpResponse.ok.withHeader "Content-Type".toList
        "text/plain; version=0.0.4".toList).text (fromUtf8Lossy buffer))
  | some .stats => .ok (HttpResponse.ok.json (some (statsJson m).bytes))
  | none => .ok HttpResponse.notFound

/-- The `match` on the parsed request in `Reactor::handle_request`. -/
def respond (r : Reactor) (env : Surroundings) (m : Metrics) (buf : Bytes) :
    Except Fault HttpResponse :=
  match HttpRequest.parse r.httparse buf with
  | .ok req => match r.config.mode with
    | .fastPath => r.handleStaticFile env.fs req
    | .dynamicPath => handleDynamic m env.encoded req
  | .error _ => .ok HttpResponse.badRequest

@[simp] theorem fileResponse_statusCode (path : Str) (mmap : MmapFile) :
    (fileResponse path mmap).statusCode = 200 := by
  unfold fileResponse
  cases Path.extension path <;> rfl

theorem fileResponse_contentLength (path : Str) (mmap : MmapFile) :
    (fileResponse path mmap).headers.lookup "Content-Length".toList =
      some (decimal mmap.slice.length) := by
  unfold fileResponse
  have hne : "Content-Length".toList ≠ "Content-Type".toList := by decide
  cases Path.extension path with
  | none => exact AList.lookup_insert _
  | some ext => exact (AList.lookup_insert_ne hne).trans (AList.lookup_insert _)

@[simp] theorem fileResponse_body (path : Str) (mmap : MmapFile) :
    (fileResponse path mmap).body = mmap.slice := by
  unfold fileResponse
  cases Path.extension path <;> rfl

section StaticFile

variable {r : Reactor} {fs : Filesystem} {req : HttpRequest} {path : Str}

theorem handleStaticFile_unsliceable (hp : r.staticPath req = none) :
    r.handleStaticFile fs req = .error .panicked := by
  simp only [handleStaticFile, hp]

theorem handleStaticFile_missing (hp : r.staticPath req = some path)
    (he : fs.exist path = false) : r.handleStaticFile fs req = .ok HttpResponse.notFound := by
  simp only [handleStaticFile, hp, he, ↓reduceIte]

theorem handleStaticFile_mapped {mmap : MmapFile} (hp : r.staticPath req = some path)
    (he : fs.exist path = true) (hm : MmapFile.new fs path = .ok mmap)
    (hb : mmap.backed = true) : r.handleStaticFile fs req = .ok (fileResponse path mmap) := by
  simp only [handleStaticFile, hp, he, hm, hb, Bool.true_eq_false, ↓reduceIte]

/-- A file that has been cut short under its mapping kills the process. -/
theorem handleStaticFile_cut {mmap : MmapFile} (hp : r.staticPath req = some path)
    (he : fs.exist path = true) (hm : MmapFile.new fs path = .ok mmap)
    (hb : mmap.backed = false) : r.handleStaticFile fs req = .error .killed := by
  simp only [handleStaticFile, hp, he, hm, hb, Bool.true_eq_false, Bool.false_eq_true, ↓reduceIte]

theorem handleStaticFile_unmapped {e : Anyhow} (hp : r.staticPath req = some path)
    (he : fs.exist path = true) (hm : MmapFile.new fs path = .error e) :
    r.handleStaticFile fs req = .error (.error e) := by
  simp only [handleStaticFile, hp, he, hm, Bool.true_eq_false, ↓reduceIte]

/-- The two ways `handle_static_file` comes to a response. -/
theorem handleStaticFile_ok_cases {resp : HttpResponse}
    (h : r.handleStaticFile fs req = .ok resp) : ∃ path, r.staticPath req = some path ∧
      (fs.exist path = false ∧ resp = HttpResponse.notFound ∨
        fs.exist path = true ∧ ∃ mmap, MmapFile.new fs path = .ok mmap ∧
          mmap.backed = true ∧ resp = fileResponse path mmap) := by
  cases hp : r.staticPath req with
  | none =>
    rw [handleStaticFile_unsliceable hp] at h
    cases h
  | some path =>
    refine ⟨path, rfl, ?_⟩
    cases he : fs.exist path with
    | false =>
      rw [handleStaticFile_missing hp he] at h
      exact Or.inl ⟨rfl, (Except.ok.inj h).symm⟩
    | true =>
      cases hm : MmapFile.new fs path with
      | error e =>
        rw [handleStaticFile_unmapped hp he hm] at h
        cases h
      | ok mmap =>
        cases hb : mmap.backed with
        | false =>
          rw [handleStaticFile_cut hp he hm hb] at h
          cases h
        | true =>
          rw [handleStaticFile_mapped hp he hm hb] at h
          exact Or.inr ⟨rfl, mmap, rfl, hb, (Except.ok.inj h).symm⟩

end StaticFile

theorem respond_fastPath {r : Reactor} {env : Surroundings} {m : Metrics} {buf : Bytes}
    {req : HttpRequest} (hmode : r.config.mode = .fastPath)
    (hparse : HttpRequest.parse r.httparse buf = .ok req) :
    r.respond env m buf = r.handleStaticFile env.fs req := by
  simp only [respond, hparse, hmode]

/-- A 200 answer opened a file that could be mapped. -/
theorem mappable_of_respond {r : Reactor} {env : Surroundings} {m : Metrics} {buf : Bytes}
    {req : HttpRequest} {path : Str} {resp : HttpResponse} (hmode : r.config.mode = .fastPath)
    (hparse : HttpRequest.parse r.httparse buf = .ok req) (hpath : r.staticPath req = some path)
    (hresp : r.respond env m buf = .ok resp) (h200 : resp.statusCode = 200) :
    Mappable env.fs path := by
  rw [respond_fastPath hmode hparse] at hresp
  obtain ⟨path', hpath', ⟨-, rfl⟩ | ⟨-, mmap, hm, -, -⟩⟩ := handleStaticFile_ok_cases hresp
  · exact absurd h200 (by decide)
  · obtain rfl := Option.some.inj (hpath.symm.trans hpath')
    exact mmapFile_new_ok_iff.mp ⟨mmap, hm⟩

theorem respond_dynamicPath {r : Reactor} {env : Surroundings} {m : Metrics} {buf : Bytes}
    {req : HttpRequest} (hmode : r.config.mode = .dynamicPath)
    (hparse : HttpRequest.parse r.httparse buf = .ok req) :
    r.respond env m buf = handleDynamic m env.encoded req := by
  simp only [respond, hparse, hmode]

theorem respond_refused {r : Reactor} {env : Surroundings} {m : Metrics} {buf : Bytes} {e : Anyhow}
    (hparse : HttpRequest.parse r.httparse buf = .error e) :
    r.respond env m buf = .ok HttpResponse.badRequest := by
  simp only [respond, hparse]

end Reactor

end KernelEngine.Worker
