import KernelEngine.Worker.Reactor

namespace KernelEngine.Questions
open Rust File Http Worker

/-- What a buffer asks for, once parsed: nothing, the file at a path (none where the
slice `[1..]` panics), or an endpoint. -/
inductive Question where
  | refused
  | file (path : Option Str)
  | route (e : Option Reactor.Endpoint)
  deriving DecidableEq

def question (r : Reactor) (buf : Bytes) : Question :=
  match HttpRequest.parse r.httparse buf with
  | .error _ => .refused
  | .ok req => match r.config.mode with
    | .fastPath => .file (r.staticPath req)
    | .dynamicPath => .route (Reactor.endpoint req)

variable {r : Reactor} {env : Surroundings} {m : Metrics} {buf buf' : Bytes}

theorem question_refused {e : Anyhow} (hparse : HttpRequest.parse r.httparse buf = .error e) :
    question r buf = .refused := by
  simp only [question, hparse]

theorem question_file {req : HttpRequest} (hmode : r.config.mode = .fastPath)
    (hparse : HttpRequest.parse r.httparse buf = .ok req) :
    question r buf = .file (r.staticPath req) := by
  simp only [question, hparse, hmode]

theorem question_route {req : HttpRequest} (hmode : r.config.mode = .dynamicPath)
    (hparse : HttpRequest.parse r.httparse buf = .ok req) :
    question r buf = .route (Reactor.endpoint req) := by
  simp only [question, hparse, hmode]

/-- The response to each question. -/
def responseTo (env : Surroundings) (m : Metrics) : Question → Except Fault HttpResponse
  | .refused => .ok HttpResponse.badRequest
  | .file none => .error .panicked
  | .file (some path) =>
    if env.fs.exist path = false then .ok HttpResponse.notFound
    else match MmapFile.new env.fs path with
      | .error e => .error (.error e)
      | .ok mmap => if mmap.backed then .ok (Reactor.fileResponse path mmap) else .error .killed
  | .route (some .health) => .ok (HttpResponse.ok.json (some Reactor.healthJson.bytes))
  | .route (some .metrics) => match env.encoded with
    | .error e => .error (.error e)
    | .ok buffer => .ok ((HttpResponse.ok.withHeader "Content-Type".toList
        "text/plain; version=0.0.4".toList).text (fromUtf8Lossy buffer))
  | .route (some .stats) => .ok (HttpResponse.ok.json (some (Reactor.statsJson m).bytes))
  | .route none => .ok HttpResponse.notFound

/-- The response depends on the question alone. -/
theorem respond_eq (r : Reactor) (env : Surroundings) (m : Metrics) (buf : Bytes) :
    r.respond env m buf = responseTo env m (question r buf) := by
  cases hparse : HttpRequest.parse r.httparse buf with
  | error e => rw [Reactor.respond_refused hparse, question_refused hparse, responseTo]
  | ok req =>
    cases hmode : r.config.mode with
    | fastPath =>
      rw [Reactor.respond_fastPath hmode hparse, question_file hmode hparse]
      unfold Reactor.handleStaticFile
      cases r.staticPath req <;> rfl
    | dynamicPath =>
      rw [Reactor.respond_dynamicPath hmode hparse, question_route hmode hparse]
      unfold Reactor.handleDynamic
      cases Reactor.endpoint req with
      | none => rfl
      | some e => cases e <;> rfl

/-- A file system with one file of one byte, and an encoder that has nothing to say. -/
def holding (path : Str) : Surroundings := ⟨onlyFile path [0], .ok []⟩

/-- The status and the first bytes by which the answers to different questions differ. -/
def mark (path : Str) : Question → Option (ℕ × Bytes)
  | .refused => some (400, Str.bytes "400".toList)
  | .file none => none
  | .file (some p) => if p = path then some (200, [0]) else some (404, Str.bytes "404".toList)
  | .route (some .health) => some (200, Str.bytes "\x7b\"s".toList)
  | .route (some .metrics) => some (200, [])
  | .route (some .stats) => some (200, Str.bytes "\x7b\"b".toList)
  | .route none => some (404, Str.bytes "404".toList)

theorem responseTo_present (path : Str) (m : Metrics) : ∃ mmap : MmapFile, mmap.slice = [0] ∧
    responseTo (holding path) m (.file (some path)) = .ok (Reactor.fileResponse path mmap) := by
  have hexist : (holding path).fs.exist path = true := onlyFile_exist_iff.mpr rfl
  have hopen : (holding path).fs.openFile path = .ok (regular [0]) := if_pos rfl
  have hnew : MmapFile.new (holding path).fs path = .ok ⟨[0], 1, true, rfl, by decide⟩ :=
    mmapFile_new_of_mmap hopen rfl (by decide) rfl
  exact ⟨⟨[0], 1, true, rfl, by decide⟩, rfl, by
    simp only [responseTo, hexist, hnew, Bool.true_eq_false, if_false, if_true]⟩

theorem responseTo_absent {path p : Str} (m : Metrics) (hp : p ≠ path) :
    responseTo (holding path) m (.file (some p)) = .ok HttpResponse.notFound := by
  have hexist : (holding path).fs.exist p = false :=
    Bool.eq_false_iff.mpr fun h => hp (onlyFile_exist_iff.mp h)
  simp only [responseTo, hexist, if_true]

theorem mark_of_response {path : Str} {q : Question} {response : HttpResponse}
    (h : responseTo (holding path) m q = .ok response) :
    mark path q = some (response.statusCode, response.body.take 3) := by
  cases q with
  | refused =>
    obtain rfl := Except.ok.inj h
    rfl
  | file p =>
    cases p with
    | none => cases h
    | some p =>
      by_cases hp : p = path
      · subst hp
        obtain ⟨mmap, hslice, hok⟩ := responseTo_present p m
        obtain rfl := Except.ok.inj (hok.symm.trans h)
        rw [Reactor.fileResponse_statusCode, Reactor.fileResponse_body, hslice, mark, if_pos rfl]
        rfl
      · obtain rfl := Except.ok.inj ((responseTo_absent m hp).symm.trans h)
        rw [mark, if_neg hp]
        rfl
  | route e =>
    cases e with
    | none =>
      obtain rfl := Except.ok.inj h
      rfl
    | some e =>
      cases e <;>
      · obtain rfl := Except.ok.inj h
        rfl

/-- The mark at a path tells the question for the file there from every other question. -/
theorem mark_file {path : Str} {q : Question}
    (h : mark path q = mark path (.file (some path))) : q = .file (some path) := by
  rw [mark, if_pos rfl] at h
  cases q with
  | refused => exact absurd h (by simp [mark])
  | file p =>
    cases p with
    | none => cases h
    | some p =>
      by_cases hp : p = path
      · rw [hp]
      · exact absurd h (by simp [mark, hp])
  | route e =>
    cases e with
    | none => exact absurd h (by simp [mark])
    | some e => cases e <;> exact absurd h (by simp only [mark]; decide)

/-- The questions that name no file. -/
def pathless : List Question :=
  [.refused, .route none, .route (some .health), .route (some .metrics), .route (some .stats)]

theorem pathless_or_file (q : Question) :
    q ∈ pathless ∨ q = .file none ∨ ∃ p, q = .file (some p) := by
  cases q with
  | refused => exact Or.inl (by decide)
  | file p =>
    cases p with
    | none => exact Or.inr (Or.inl rfl)
    | some p => exact Or.inr (Or.inr ⟨p, rfl⟩)
  | route e =>
    cases e with
    | none => exact Or.inl (by decide)
    | some e => cases e <;> exact Or.inl (by decide)

theorem nodup_mark_pathless : (pathless.map (mark [])).Nodup := by
  decide

/-- Questions with the same answers in every file system are the same. -/
theorem question_ext {q q' : Question} (h : ∀ path, ∃ m response,
    responseTo (holding path) m q = .ok response ∧
      responseTo (holding path) m q' = .ok response) : q = q' := by
  have hmark (path : Str) : mark path q = mark path q' ∧ mark path q ≠ none := by
    obtain ⟨m, response, hq, hq'⟩ := h path
    rw [mark_of_response hq, mark_of_response hq']
    exact ⟨rfl, Option.some_ne_none _⟩
  -- A file that one of them asks for is the path to look at.
  rcases pathless_or_file q with hq | rfl | ⟨p, rfl⟩
  · rcases pathless_or_file q' with hq' | rfl | ⟨p, rfl⟩
    · exact List.inj_on_of_nodup_map nodup_mark_pathless hq hq' (hmark []).1
    · exact absurd (hmark []).1 (hmark []).2
    · exact mark_file (hmark p).1
  · exact absurd rfl (hmark []).2
  · exact (mark_file (hmark p).1.symm).symm

/-- Where one file is readable and the encoder works, only the panic has no response. -/
theorem exists_response (path : Str) (m : Metrics) {q : Question} (h : q ≠ .file none) :
    ∃ response, responseTo (holding path) m q = .ok response := by
  cases q with
  | refused => exact ⟨_, rfl⟩
  | file p =>
    cases p with
    | none => exact absurd rfl h
    | some p =>
      by_cases hp : p = path
      · subst hp
        obtain ⟨mmap, -, hok⟩ := responseTo_present p m
        exact ⟨Reactor.fileResponse p mmap, hok⟩
      · exact ⟨HttpResponse.notFound, responseTo_absent m hp⟩
  | route e =>
    cases e with
    | none => exact ⟨_, rfl⟩
    | some e => cases e <;> exact ⟨_, rfl⟩

/-- One request served: the response, and the counters after it. -/
def serveOne (r : Reactor) (env : Surroundings) (m : Metrics) (buf : Bytes) :
    Option (HttpResponse × Metrics) :=
  let m := { m with requestsTotal := incBy m.requestsTotal 1 }
  match r.respond env m buf with
  | .ok response => some (response, { m with bytesSent := incBy m.bytesSent response.size })
  | .error _ => none

/-- The responses to requests that each arrive alone in one read large enough. -/
def serveAll (r : Reactor) (env : Surroundings) :
    Metrics → List Bytes → Option (List HttpResponse × Metrics)
  | m, [] => some ([], m)
  | m, buf :: bufs => do
    let (response, m) ← serveOne r env m buf
    let (responses, m) ← serveAll r env m bufs
    some (response :: responses, m)

theorem serveAll_congr {bufs bufs' : List Bytes}
    (h : bufs.map (question r) = bufs'.map (question r)) (m : Metrics) :
    serveAll r env m bufs = serveAll r env m bufs' := by
  induction bufs generalizing bufs' m with
  | nil =>
    obtain rfl := List.map_eq_nil_iff.mp h.symm
    rfl
  | cons buf bufs ih =>
    cases bufs' with
    | nil => cases h
    | cons buf' bufs' =>
      obtain ⟨hhead, htail⟩ := List.cons.inj h
      simp only [serveAll, serveOne, respond_eq, hhead, ih htail]

theorem serveOne_eq_some {m m' : Metrics} {buf : Bytes} {response : HttpResponse} :
    serveOne r env m buf = some (response, m') ↔
      r.respond env { m with requestsTotal := incBy m.requestsTotal 1 } buf = .ok response ∧
        m' = ⟨incBy m.requestsTotal 1, incBy m.bytesSent response.size⟩ := by
  unfold serveOne
  dsimp only
  constructor
  · intro h
    split at h
    case h_1 response' hok =>
      obtain ⟨rfl, rfl⟩ := Prod.mk.inj (Option.some.inj h)
      exact ⟨hok, rfl⟩
    case h_2 => cases h
  · rintro ⟨hok, rfl⟩
    rw [hok]

theorem serveAll_cons_eq_some {m m₂ : Metrics} {buf : Bytes} {bufs : List Bytes}
    {responses : List HttpResponse} :
    serveAll r env m (buf :: bufs) = some (responses, m₂) ↔
      ∃ response m₁ tail, serveOne r env m buf = some (response, m₁) ∧
        serveAll r env m₁ bufs = some (tail, m₂) ∧ responses = response :: tail := by
  simp only [serveAll, Option.bind_eq_bind, Option.bind_eq_some_iff, Option.some.injEq,
    Prod.mk.injEq, Prod.exists]
  constructor
  · rintro ⟨response, m₁, hone, tail, _, hall, rfl, rfl⟩
    exact ⟨response, m₁, tail, hone, hall, rfl⟩
  · rintro ⟨response, m₁, tail, hone, hall, rfl⟩
    exact ⟨response, m₁, hone, tail, m₂, hall, rfl, rfl⟩

theorem serveAll_concat {bufs : List Bytes} {buf : Bytes} {m m₁ m₂ : Metrics}
    {responses : List HttpResponse} {response : HttpResponse}
    (hbufs : serveAll r env m bufs = some (responses, m₁))
    (hbuf : serveOne r env m₁ buf = some (response, m₂)) :
    serveAll r env m (bufs ++ [buf]) = some (responses ++ [response], m₂) := by
  induction bufs generalizing m responses with
  | nil =>
    obtain ⟨rfl, rfl⟩ := Prod.mk.inj (Option.some.inj hbufs)
    simp [serveAll, hbuf]
  | cons b bufs ih =>
    obtain ⟨head, m', tail, hhead, htail, rfl⟩ := serveAll_cons_eq_some.mp hbufs
    exact serveAll_cons_eq_some.mpr ⟨head, m', tail ++ [response], hhead, ih htail, rfl⟩

theorem serveAll_length {m m' : Metrics} {bufs : List Bytes}
    {responses : List HttpResponse} (h : serveAll r env m bufs = some (responses, m')) :
    responses.length = bufs.length := by
  induction bufs generalizing m responses with
  | nil =>
    obtain ⟨rfl, -⟩ := Prod.mk.inj (Option.some.inj h)
    rfl
  | cons buf bufs ih =>
    obtain ⟨response, m₁, tail, -, hall, rfl⟩ := serveAll_cons_eq_some.mp h
    rw [List.length_cons, List.length_cons, ih hall]

/-- Equal answers to two lists: equal answers to their heads, and to their tails from
the same counters on. -/
theorem serveAll_peel {m m₁ m₂ : Metrics} {buf buf' : Bytes}
    {bufs bufs' : List Bytes} {responses : List HttpResponse}
    (h : serveAll r env m (buf :: bufs) = some (responses, m₁))
    (h' : serveAll r env m (buf' :: bufs') = some (responses, m₂)) :
    (∃ m response, responseTo env m (question r buf) = .ok response ∧
      responseTo env m (question r buf') = .ok response) ∧
    ∃ m tail, serveAll r env m bufs = some (tail, m₁) ∧
      serveAll r env m bufs' = some (tail, m₂) := by
  obtain ⟨response, m', tail, hone, htail, rfl⟩ := serveAll_cons_eq_some.mp h
  obtain ⟨response', m'', tail', hone', htail', heq⟩ := serveAll_cons_eq_some.mp h'
  obtain ⟨rfl, rfl⟩ := List.cons.inj heq
  obtain ⟨hok, rfl⟩ := serveOne_eq_some.mp hone
  obtain ⟨hok', rfl⟩ := serveOne_eq_some.mp hone'
  rw [respond_eq] at hok hok'
  exact ⟨⟨_, response, hok, hok'⟩, _, tail, htail, htail'⟩

/-- Buffers that get the same answers wherever a single file lies ask the same. -/
theorem questions_eq_of_serveAll {bufs bufs' : List Bytes}
    (h : ∀ path, ∃ m responses m₁ m₂,
      serveAll r (holding path) m bufs = some (responses, m₁) ∧
        serveAll r (holding path) m bufs' = some (responses, m₂)) :
    bufs.map (question r) = bufs'.map (question r) := by
  have hlen : bufs.length = bufs'.length := by
    obtain ⟨m, responses, m₁, m₂, hall, hall'⟩ := h []
    exact (serveAll_length hall).symm.trans (serveAll_length hall')
  induction bufs generalizing bufs' with
  | nil => rw [List.length_eq_zero_iff.mp hlen.symm]
  | cons buf bufs ih =>
    obtain ⟨buf', bufs', rfl⟩ := List.exists_cons_of_length_eq_add_one hlen.symm
    have hhead : question r buf = question r buf' := by
      refine question_ext fun path => ?_
      obtain ⟨m, responses, m₁, m₂, hall, hall'⟩ := h path
      exact (serveAll_peel hall hall').1
    have htail : bufs.map (question r) = bufs'.map (question r) := by
      refine ih (fun path => ?_) (Nat.succ.inj hlen)
      obtain ⟨m, responses, m₁, m₂, hall, hall'⟩ := h path
      obtain ⟨-, m', tail, htail, htail'⟩ := serveAll_peel hall hall'
      exact ⟨m', tail, m₁, m₂, htail, htail'⟩
    rw [List.map_cons, List.map_cons, hhead, htail]

end KernelEngine.Questions
