import KernelEngine.Worker.EventLoop

namespace KernelEngine.Slicing
open Rust File Http Net Worker

/-- The slice behind the first byte of the clean path can be taken, and no state of
the loop panics on this buffer. -/
structure Safe (r : Reactor) (buf : Bytes) (req : HttpRequest) : Prop where
  slice : ∃ q, dropByte req.cleanPath = some q
  runs : ∀ s env fd rest, (r.handle s env fd buf rest).point ≠ .panicked

/-- The target begins with an ASCII character other than `?`. -/
def Sliceable (target : Str) : Prop := ∃ c rest, target = c :: rest ∧ c ≠ '?' ∧ c.toNat < 128

variable {r : Reactor} {buf : Bytes} {req : HttpRequest}

theorem dropByte_cleanPath_iff : (∃ q, dropByte req.cleanPath = some q) ↔ Sliceable req.path := by
  unfold HttpRequest.cleanPath Sliceable
  cases req.path with
  | nil => simp [dropByte]
  | cons c rest =>
    by_cases hc : c = '?'
    · subst hc
      simp [dropByte]
    · rw [List.takeWhile_cons_of_pos (by simpa using hc)]
      simp [dropByte, hc, utf8Size_eq_one_iff]

/-- In fast-path mode the slice is the only panic. -/
theorem respond_panicked_iff (hmode : r.config.mode = .fastPath)
    (hparse : HttpRequest.parse r.httparse buf = .ok req) (env : Surroundings) (m : Metrics) :
    r.respond env m buf = .error .panicked ↔ dropByte req.cleanPath = none := by
  rw [Reactor.respond_fastPath hmode hparse]
  cases hq : dropByte req.cleanPath with
  | none =>
    have hpath : r.staticPath req = none := by simp [Reactor.staticPath, hq]
    rw [Reactor.handleStaticFile_unsliceable hpath]
    simp
  | some q =>
    have hpath : r.staticPath req = some (Path.join r.config.staticDir q) := by
      simp [Reactor.staticPath, hq]
    refine iff_of_false (fun h => ?_) (Option.some_ne_none q)
    cases hexist : env.fs.exist (Path.join r.config.staticDir q) with
    | false =>
      rw [Reactor.handleStaticFile_missing hpath hexist] at h
      cases h
    | true =>
      cases hnew : MmapFile.new env.fs (Path.join r.config.staticDir q) with
      | error e =>
        rw [Reactor.handleStaticFile_unmapped hpath hexist hnew] at h
        cases h
      | ok mmap =>
        cases hback : mmap.backed with
        | false =>
          rw [Reactor.handleStaticFile_cut hpath hexist hnew hback] at h
          cases h
        | true =>
          rw [Reactor.handleStaticFile_mapped hpath hexist hnew hback] at h
          cases h

theorem handle_point_panicked_iff {s : LoopState} {env : Surroundings} {fd : RawFd}
    {rest : List (RawFd × EventFlags)} : (r.handle s env fd buf rest).point = .panicked ↔
      r.respond env { s.metrics with
        requestsTotal := incBy s.metrics.requestsTotal 1 } buf = .error .panicked := by
  obtain ⟨m, rfl, ⟨response, hr, h⟩ | ⟨e, hr, h⟩ | ⟨hr, h⟩ | ⟨hr, h⟩⟩ :=
    Reactor.handle_cases r s env fd buf rest <;>
    simp [h, hr]

/-- A request that parses is served without a panic exactly when its target begins
with an ASCII character other than `?`. -/
theorem safe_iff_sliceable (r : Reactor) (buf : Bytes) (req : HttpRequest)
    (hmode : r.config.mode = .fastPath)
    (hparse : HttpRequest.parse r.httparse buf = .ok req) :
    Safe r buf req ↔ Sliceable req.path := by
  rw [← dropByte_cleanPath_iff]
  constructor
  · exact fun h => h.slice
  · rintro ⟨q, hq⟩
    refine ⟨⟨q, hq⟩, fun s env fd rest hpanic => ?_⟩
    have hnone := (respond_panicked_iff hmode hparse _ _).mp (handle_point_panicked_iff.mp hpanic)
    exact Option.some_ne_none q (hq.symm.trans hnone)

def homeRequest : RequestText := .get "/".toList (by decide) (by decide)

theorem home_safe : ∃ req, HttpRequest.parse Reactor.stock.httparse homeRequest.render = .ok req ∧
    Safe Reactor.stock homeRequest.render req := by
  have hparse := HttpRequest.parse_render referenceHttparse_canonical homeRequest (by decide)
  exact ⟨_, hparse, (safe_iff_sliceable Reactor.stock _ _ rfl hparse).mpr
    ⟨'/', [], rfl, by decide, by decide⟩⟩

def bareQueryRequest : RequestText := .get "?".toList (by decide) (by decide)

/-- `GET ?` leaves an empty path, whose slice `[1..]` is out of bounds. -/
theorem bare_query_panics : ∃ req,
    HttpRequest.parse Reactor.stock.httparse bareQueryRequest.render = .ok req ∧
      dropByte req.cleanPath = none ∧ (∀ s env fd rest,
        (Reactor.stock.handle s env fd bareQueryRequest.render rest).point = .panicked) ∧
      ¬ Safe Reactor.stock bareQueryRequest.render req := by
  have hparse := HttpRequest.parse_render referenceHttparse_canonical bareQueryRequest (by decide)
  have hpanic (s : LoopState) (env : Surroundings) (fd : RawFd) (rest : List (RawFd × EventFlags)) :
      (Reactor.stock.handle s env fd bareQueryRequest.render rest).point = .panicked :=
    handle_point_panicked_iff.mpr ((respond_panicked_iff rfl hparse _ _).mpr (by decide))
  exact ⟨_, hparse, by decide, hpanic, fun h => h.runs (.enter 4) ⟨onlyFile [] [], .ok []⟩ 5 []
    (hpanic _ _ _ _)⟩

end KernelEngine.Slicing
