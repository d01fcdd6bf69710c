import KernelEngine.Worker.Reactor

namespace KernelEngine.Containment
open Rust File Http Worker Lexical

/-- The normalised directory is a component prefix of the normalised path. -/
def Inside (dir path : Str) : Prop := (Path.normalForm dir).Within (Path.normalForm path)

instance (dir path : Str) : Decidable (Inside dir path) :=
  inferInstanceAs (Decidable (NormalPath.Within _ _))

/-- `mmap` fails with `ENODEV` on a directory. -/
def MapsNoDirectory (fs : Filesystem) : Prop :=
  ∀ path, Path.NamesDirectory path → ¬ Mappable fs path

/-- Whatever the file system holds, a 200 answer to this buffer serves a file
inside the static directory. -/
def ServesInside (r : Reactor) (buf : Bytes) : Prop :=
  ∀ env m req path resp, MapsNoDirectory env.fs → HttpRequest.parse r.httparse buf = .ok req →
    r.staticPath req = some path → r.respond env m buf = .ok resp → resp.statusCode = 200 →
    Inside r.config.staticDir path

/-- The exact condition on the directory and the request path: the slice behind
the first byte panics, or can only name a directory, or is relative and climbs
out of nothing it does not walk back into, or is absolute and inside anyway. -/
def StaysInside (dir cleanPath : Str) : Prop :=
  match dropByte cleanPath with
  | none => True
  | some q => Path.NamesDirectory q ∨
    if Path.isAbsolute q then Inside dir q
    else Reenters (Path.normalForm dir) (Path.normalForm q)

theorem inside_join_iff (dir q : Str) : Inside dir (Path.join dir q) ↔
    if Path.isAbsolute q then Inside dir q
    else Reenters (Path.normalForm dir) (Path.normalForm q) := by
  split_ifs with hq
  · rw [Path.join_of_absolute hq]
  · rw [Inside, Path.normalForm_join hq, within_append_iff]

theorem mapsNoDirectory_onlyFile {path : Str} {data : Bytes} (hdata : data ≠ [])
    (hpath : ¬ Path.NamesDirectory path) : MapsNoDirectory (onlyFile path data) := by
  intro p hp hmap
  obtain rfl := (mappable_onlyFile_iff hdata).mp hmap
  exact hpath hp

/-- A path that can be mapped is answered with 200. -/
theorem respond_of_mappable {r : Reactor} (env : Surroundings) (m : Metrics) {buf : Bytes}
    {req : HttpRequest} {path : Str} (hmode : r.config.mode = .fastPath)
    (hparse : HttpRequest.parse r.httparse buf = .ok req) (hpath : r.staticPath req = some path)
    (hexist : env.fs.exist path = true) (hmap : Mappable env.fs path)
    (hback : Backed env.fs path) :
    ∃ resp, r.respond env m buf = .ok resp ∧ resp.statusCode = 200 := by
  obtain ⟨mmap, hm⟩ := mmapFile_new_ok_iff.mpr hmap
  refine ⟨Reactor.fileResponse path mmap, ?_, Reactor.fileResponse_statusCode _ _⟩
  rw [Reactor.respond_fastPath hmode hparse]
  exact Reactor.handleStaticFile_mapped hpath hexist hm ((mmapFile_backed_iff hm).mpr hback)

theorem serves_inside_iff_stays_inside (r : Reactor) (buf : Bytes) (req : HttpRequest)
    (hmode : r.config.mode = .fastPath)
    (hparse : HttpRequest.parse r.httparse buf = .ok req) :
    ServesInside r buf ↔ StaysInside r.config.staticDir req.cleanPath := by
  unfold StaysInside
  cases hq : dropByte req.cleanPath with
  | none =>
    refine iff_of_true ?_ trivial
    intro env m req' path _ _ hparse' hpath
    obtain rfl := Except.ok.inj (hparse.symm.trans hparse')
    simp [Reactor.staticPath, hq] at hpath
  | some q =>
    have hpath : r.staticPath req = some (Path.join r.config.staticDir q) := by
      simp [Reactor.staticPath, hq]
    dsimp only
    rw [← inside_join_iff]
    constructor
    · intro h
      by_contra hout
      obtain ⟨hfile, hout⟩ := not_or.mp hout
      -- the file system that holds this one file
      let fs := onlyFile (Path.join r.config.staticDir q) [0]
      have hfs : MapsNoDirectory fs := mapsNoDirectory_onlyFile (by simp)
        (fun h => hfile (Path.namesDirectory_join.mp h))
      obtain ⟨resp, hresp, h200⟩ := respond_of_mappable ⟨fs, .ok []⟩ ⟨0, 0⟩ hmode
        hparse hpath (onlyFile_exist_iff.mpr rfl) ((mappable_onlyFile_iff (by simp)).mpr rfl)
        (backed_onlyFile _ _ _)
      exact hout (h ⟨fs, .ok []⟩ ⟨0, 0⟩ req _ resp hfs hparse hpath hresp h200)
    · rintro h env m req' path resp hfs hparse' hpath' hresp h200
      obtain rfl := Except.ok.inj (hparse.symm.trans hparse')
      obtain rfl := Option.some.inj (hpath.symm.trans hpath')
      have hmap := Reactor.mappable_of_respond hmode hparse hpath hresp h200
      rcases h with h | h
      · exact absurd hmap (hfs _ (Path.namesDirectory_join.mpr h))
      · exact h

def indexRequest : RequestText :=
  .get "/index.html".toList (by decide) (by decide)

theorem index_serves_inside : ServesInside Reactor.stock indexRequest.render :=
  (serves_inside_iff_stays_inside Reactor.stock indexRequest.render _ rfl
    (HttpRequest.parse_render referenceHttparse_canonical indexRequest (by decide))).mpr
    (Or.inr (by decide))

def traversalRequest : RequestText :=
  .get "/../Cargo.toml".toList (by decide) (by decide)

/-- `GET /../Cargo.toml` is answered with the file next to the static directory. -/
theorem traversal_escapes : Reactor.stock.config.mode = .fastPath ∧
    (∃ req, HttpRequest.parse Reactor.stock.httparse traversalRequest.render = .ok req) ∧
    ¬ ServesInside Reactor.stock traversalRequest.render := by
  have hparse := HttpRequest.parse_render referenceHttparse_canonical traversalRequest (by decide)
  refine ⟨rfl, ⟨_, hparse⟩, fun h => ?_⟩
  have hpath : Reactor.stock.staticPath ⟨traversalRequest.method, traversalRequest.target,
      if traversalRequest.minor then 1 else 0,
      traversalRequest.raw.headers.foldl HttpRequest.insertHeader ∅, traversalRequest.body⟩ =
      some "./static/../Cargo.toml".toList := by decide
  obtain ⟨resp, hresp, h200⟩ := respond_of_mappable
    ⟨onlyFile "./static/../Cargo.toml".toList [0x5B], .ok []⟩ ⟨0, 0⟩ rfl hparse hpath
    (onlyFile_exist_iff.mpr rfl) ((mappable_onlyFile_iff (by simp)).mpr rfl) (backed_onlyFile _ _ _)
  have hin := h _ _ _ _ resp (mapsNoDirectory_onlyFile (by simp) (by decide)) hparse hpath hresp
    h200
  exact absurd hin (by decide)

end KernelEngine.Containment
