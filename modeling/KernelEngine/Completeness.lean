import KernelEngine.Http.Heads
import KernelEngine.Lib.Percent
import KernelEngine.Worker.EventLoop

namespace KernelEngine.Completeness
open Rust File Http Net Worker Runs

/-- A path below a directory: the names on the way down, none of which is `.`, `..` or
empty, or holds a slash or a NUL. -/
structure RelativePath where
  components : List Str
  nonempty : components ≠ []
  names : ∀ name ∈ components, name ≠ [] ∧ name ≠ ['.'] ∧ name ≠ ['.', '.'] ∧
    '/' ∉ name ∧ Char.ofNat 0 ∉ name

namespace RelativePath

def text (rel : RelativePath) : Str := ['/'].intercalate rel.components

/-- What percent-encoding leaves alone in a path. -/
def keep (c : Char) : Bool := Percent.unreserved c || c == '/'

/-- The target that asks for the file: the encoded path, and any query behind it. -/
def target (rel : RelativePath) (query : Str) : Str :=
  '/' :: (Percent.encode keep rel.text ++ query)

end RelativePath

/-- A query is empty or begins with its question mark. -/
def IsQuery (query : Str) : Prop := query = [] ∨ query.head? = some '?'

/-- Wherever the loop comes to read what has been sent, as much as one read takes, and the file
system holds this file at this path, it goes on to write its contents. -/
def Served (r : Reactor) (sent : Bytes) (rel : RelativePath) (data : Bytes) : Prop :=
  ∀ (listenFd fd : RawFd) (rest : List (RawFd × EventFlags)) (s : LoopState) (env : Surroundings),
    s.point = .read fd rest →
    env.fs.exist (Path.join r.config.staticDir rel.text) = true →
    env.fs.openFile (Path.join r.config.staticDir rel.text) = .ok (regular data) →
    ∃ s' resp, run (r.step listenFd) s
        [.read fd (.ok (sent.take readLen)), .serve fd (sent.take readLen) env] = some s' ∧
      s'.point = .write fd resp rest ∧ resp.statusCode = 200 ∧ resp.body = data ∧
      resp.headers.lookup "Content-Length".toList = some (decimal data.length)

section Paths

variable {r : Reactor} {req : HttpRequest} {rel : RelativePath} {query : Str}

theorem encode_not_absolute {s : Str} (h : ¬ Path.isAbsolute s) :
    ¬ Path.isAbsolute (Percent.encode RelativePath.keep s) := by
  cases s with
  | nil => exact h
  | cons c s =>
    have hc : c ≠ '/' := by simpa [Path.isAbsolute] using h
    rw [Path.isAbsolute, Percent.head?_encode_cons, Option.some.injEq]
    split_ifs
    · exact hc
    · decide

theorem text_not_absolute (rel : RelativePath) : ¬ Path.isAbsolute rel.text := by
  obtain ⟨name, names, hcomponents⟩ := List.exists_cons_of_ne_nil rel.nonempty
  obtain ⟨hne, -, -, hslash, -⟩ := rel.names name (hcomponents ▸ List.mem_cons_self)
  obtain ⟨c, name', rfl⟩ := List.exists_cons_of_ne_nil hne
  have hc : c ≠ '/' := fun heq => hslash (heq ▸ List.mem_cons_self)
  rw [RelativePath.text, hcomponents]
  cases names <;> simpa [Path.isAbsolute, List.intercalate] using hc

theorem cleanPath_target (hquery : IsQuery query) (htarget : req.path = rel.target query) :
    req.cleanPath = '/' :: Percent.encode RelativePath.keep rel.text := by
  have hmark : '?' ∉ Percent.encode RelativePath.keep rel.text :=
    Percent.not_mem_encode (by decide) (by decide) (by decide)
  have hrest : query.takeWhile (· ≠ '?') = [] := by
    obtain rfl | hhead := hquery
    · rfl
    · obtain ⟨query', rfl⟩ := List.head?_eq_some_iff.mp hhead
      rfl
  rw [HttpRequest.cleanPath, htarget, RelativePath.target, List.takeWhile_cons_of_pos (by decide),
    List.takeWhile_append_of_pos, hrest, List.append_nil]
  intro c hc
  exact decide_eq_true (ne_of_mem_of_not_mem hc hmark)

theorem staticPath_target (hquery : IsQuery query) (htarget : req.path = rel.target query) :
    r.staticPath req =
      some (Path.join r.config.staticDir (Percent.encode RelativePath.keep rel.text)) := by
  rw [Reactor.staticPath, cleanPath_target hquery htarget]
  rfl

theorem join_injective {dir p q : Str} (hp : ¬ Path.isAbsolute p) (hq : ¬ Path.isAbsolute q) :
    Path.join dir p = Path.join dir q ↔ p = q := by
  unfold Path.join
  rw [if_neg hp, if_neg hq]
  split_ifs <;> simp

/-- What one read takes of a request parses exactly when it takes the whole head and there are
not too many fields. -/
theorem parse_take_ok_iff {slots n m : ℕ} {sent : Bytes} {raw : RawRequest}
    (hfilled : Filled r.httparse) (hrep : Repeatable r.httparse)
    (hsent : r.httparse slots sent = .ok (.complete n, raw)) :
    (∃ req, HttpRequest.parse r.httparse (sent.take m) = .ok req) ↔
      n ≤ m ∧ raw.headers.length ≤ 64 := by
  constructor
  · rintro ⟨req, hparse⟩
    obtain ⟨n', raw', hraw, -⟩ := HttpRequest.complete_of_parse hparse
    exact hrep.needed hsent hraw
  · rintro ⟨hn, hlen⟩
    have hraw := hrep.again hsent hn hlen
    obtain ⟨hmethod, hpath, hversion⟩ := hfilled _ _ _ _ hraw
    obtain ⟨method, hmethod⟩ := Option.isSome_iff_exists.mp hmethod
    obtain ⟨path, hpath⟩ := Option.isSome_iff_exists.mp hpath
    obtain ⟨version, hversion⟩ := Option.isSome_iff_exists.mp hversion
    exact ⟨_, HttpRequest.parse_of_complete hraw hmethod hpath hversion⟩

theorem path_of_parse_take {slots n m : ℕ} {sent : Bytes} {raw : RawRequest} {target : Str}
    (hrep : Repeatable r.httparse) (hsent : r.httparse slots sent = .ok (.complete n, raw))
    (htarget : raw.path = some target)
    (hparse : HttpRequest.parse r.httparse (sent.take m) = .ok req) : req.path = target := by
  obtain ⟨n', raw', hraw, hpath⟩ := HttpRequest.complete_of_parse hparse
  obtain ⟨hn, hlen⟩ := hrep.needed hsent hraw
  obtain ⟨-, rfl⟩ := Prod.mk.inj (Except.ok.inj ((hrep.again hsent hn hlen).symm.trans hraw))
  exact Option.some.inj (hpath.symm.trans htarget)

end Paths

/-- The encoded path is the file's own exactly when there was nothing to encode, a file is
mapped exactly when it is not empty, and a request is understood exactly when its head fits in
one read and its fields in the slots. -/
theorem served_iff_plain (r : Reactor) (hmode : r.config.mode = .fastPath)
    (hfilled : Filled r.httparse) (hrep : Repeatable r.httparse) (sent : Bytes) (hne : sent ≠ [])
    (slots n : ℕ) (raw : RawRequest) (hsent : r.httparse slots sent = .ok (.complete n, raw))
    (rel : RelativePath) (query : Str) (hquery : IsQuery query)
    (htarget : raw.path = some (rel.target query)) (data : Bytes) :
    Served r sent rel data ↔ (∀ c ∈ rel.text, RelativePath.keep c = true) ∧ data ≠ [] ∧
      n ≤ readLen ∧ raw.headers.length ≤ 64 := by
  have htext := text_not_absolute rel
  have hpath (req : HttpRequest)
      (hparse : HttpRequest.parse r.httparse (sent.take readLen) = .ok req) : r.staticPath req =
        some (Path.join r.config.staticDir (Percent.encode RelativePath.keep rel.text)) :=
    staticPath_target hquery (path_of_parse_take hrep hsent htarget hparse)
  constructor
  · intro h
    -- the file system that holds this one file
    let fs := onlyFile (Path.join r.config.staticDir rel.text) data
    obtain ⟨s', resp, hrun, hpoint, h200, -⟩ := h 0 0 [] ⟨.read 0 [], ⟨0, 1024, ∅⟩, ⟨0, 0⟩⟩
      ⟨fs, .ok []⟩ rfl (onlyFile_exist_iff.mpr rfl) (if_pos rfl)
    have hresp := Reactor.respond_of_run_answered hrun hpoint
    cases hparse : HttpRequest.parse r.httparse (sent.take readLen) with
    | error e =>
      rw [Reactor.respond_refused hparse] at hresp
      obtain rfl := Except.ok.inj hresp
      exact absurd h200 (by decide)
    | ok req =>
      obtain ⟨file, len, mapped, hopen, hlen, h0, -⟩ :=
        Reactor.mappable_of_respond hmode hparse (hpath req hparse) hresp h200
      obtain ⟨hsame, rfl⟩ := onlyFile_openFile_ok_iff.mp hopen
      have hencode := (join_injective (encode_not_absolute htext) htext).mp hsame
      refine ⟨Percent.encode_eq_self_iff.mp hencode, ?_,
        (parse_take_ok_iff hfilled hrep hsent).mp ⟨req, hparse⟩⟩
      rintro rfl
      exact h0 (Except.ok.inj hlen).symm
  · rintro ⟨hplain, hdata, hfits⟩ listenFd fd rest s env hp hexist hopen
    obtain ⟨req, hparse⟩ := (parse_take_ok_iff hfilled hrep hsent).mpr hfits
    have hpath := hpath req hparse
    rw [Percent.encode_eq_self_iff.mpr hplain] at hpath
    have hmapped : (regular data).mmap data.length = .ok ⟨data, rfl⟩ := dif_pos rfl
    have hmap := mmapFile_new_of_mmap hopen rfl (by simpa using hdata) hmapped
    have hsome : sent.take readLen ≠ [] := by
      simpa [List.take_eq_nil_iff, readLen] using hne
    refine ⟨_, _, Reactor.run_answered hp hsome (List.length_take_le _ _)
      ((Reactor.respond_fastPath hmode hparse).trans
        (Reactor.handleStaticFile_mapped hpath hexist hmap rfl)), rfl,
      Reactor.fileResponse_statusCode _ _, Reactor.fileResponse_body _ _,
      Reactor.fileResponse_contentLength _ _⟩

def guide : RelativePath :=
  ⟨["docs".toList, "guide.txt".toList], by decide, by decide⟩

def guideRequest : RequestText :=
  .get "/docs/guide.txt?v=1".toList (by decide) (by decide)

/-- The stand-in for the parser reads such a request to the end of its head. -/
theorem complete_render (req : RequestText) (hlen : req.headers.length ≤ 64) :
    Reactor.stock.httparse 64 req.render = .ok (.complete req.head.length, req.raw) :=
  referenceHttparse_canonical.accepts 64 req hlen

theorem guide_served : Served Reactor.stock guideRequest.render guide [0x48, 0x69] :=
  (served_iff_plain Reactor.stock rfl referenceHttparse_filled referenceHttparse_repeatable _
    (by decide) 64 guideRequest.head.length guideRequest.raw
    (complete_render guideRequest (by decide)) guide "?v=1".toList (Or.inr rfl) (by decide) _).mpr
    ⟨forall_of_all (by decide), by decide, by decide, by decide⟩

def spaced : RelativePath := ⟨["a b".toList], by decide, by decide⟩

def spacedRequest : RequestText :=
  .get "/a%20b".toList (by decide) (by decide)

/-- A file with a space in its name is answered with 404, and an empty file with an error
that ends the event loop. -/
theorem spaced_not_served :
    (Reactor.stock.respond ⟨onlyFile "./static/a b".toList [0x48, 0x69], .ok []⟩ ⟨0, 0⟩
        spacedRequest.render = .ok HttpResponse.notFound ∧
      ¬ Served Reactor.stock spacedRequest.render spaced [0x48, 0x69]) ∧
    (Reactor.stock.respond ⟨onlyFile "./static/docs/guide.txt".toList [], .ok []⟩ ⟨0, 0⟩
        guideRequest.render = .error (.error "Cannot mmap empty file".toList) ∧
      ¬ Served Reactor.stock guideRequest.render guide []) := by
  have hspaced := HttpRequest.parse_render referenceHttparse_canonical spacedRequest (by decide)
  have hguide := HttpRequest.parse_render referenceHttparse_canonical guideRequest (by decide)
  refine ⟨⟨?_, fun h => ?_⟩, ?_, fun h => ?_⟩
  · have htarget : spacedRequest.target = spaced.target [] := by decide
    rw [Reactor.respond_fastPath rfl hspaced]
    exact Reactor.handleStaticFile_missing (staticPath_target (Or.inl rfl) htarget) (by decide)
  · have hplain := ((served_iff_plain Reactor.stock rfl referenceHttparse_filled
      referenceHttparse_repeatable _ (by decide) 64 _ spacedRequest.raw
      (complete_render spacedRequest (by decide)) spaced [] (Or.inl rfl) (by decide) _).mp h).1
    exact absurd (hplain ' ' (by decide)) (by decide)
  · have htarget : guideRequest.target = guide.target "?v=1".toList := by decide
    rw [Reactor.respond_fastPath rfl hguide]
    exact Reactor.handleStaticFile_unmapped (staticPath_target (Or.inr rfl) htarget) (by decide) rfl
  · have hdata := ((served_iff_plain Reactor.stock rfl referenceHttparse_filled
      referenceHttparse_repeatable _ (by decide) 64 _ guideRequest.raw
      (complete_render guideRequest (by decide)) guide "?v=1".toList (Or.inr rfl)
      (by decide) _).mp h).2.1
    exact hdata rfl

end KernelEngine.Completeness
