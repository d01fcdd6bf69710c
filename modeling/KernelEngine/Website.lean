import KernelEngine.Completeness
import KernelEngine.Streams

namespace KernelEngine.Website
open Rust File Http Net Worker Runs Generations Serving Streams
open Completeness (IsQuery)
open Delivery (TakesAll)
open Isolation (Unchanging)
open Service (ofConnection)

/-- What a site has to say at each name: the contents of a file, or nothing. -/
abbrev Site := Str → Option Bytes

/-- At these names below the directory the file system has the files of the site, none of
them empty, and nothing where the site has nothing. -/
def Hosts (fs : Filesystem) (dir : Str) (site : Site) (names : List Str) : Prop :=
  ∀ name ∈ names, match site name with
    | some data => fs.exist (Path.join dir name) = true ∧
        fs.openFile (Path.join dir name) = .ok (regular data) ∧ data ≠ []
    | none => fs.exist (Path.join dir name) = false

/-- The buffer is a request for the name, by any method and with any headers, body and
query. -/
def AsksFor (r : Reactor) (buf : Bytes) (name : Str) : Prop :=
  ∃ req query, HttpRequest.parse r.httparse buf = .ok req ∧ req.path = '/' :: (name ++ query) ∧
    IsQuery query ∧ '?' ∉ name

/-- What a client should read for a name. -/
def Page (r : Reactor) (site : Site) (name : Str) (message : Message) : Prop :=
  match site name with
  | some data => message.statusCode = 200 ∧ message.body = data ∧
      message.headers.lookup "Content-Type".toList =
        (Path.extension (Path.join r.config.staticDir name)).map Reactor.contentType
  | none => message.statusCode = 404

section Pages

variable {r : Reactor} {env : Surroundings} {m : Metrics} {buf : Bytes} {name : Str}
  {response : HttpResponse} {site : Site}

theorem staticPath_of_asksFor {req : HttpRequest} {query : Str} (hquery : IsQuery query)
    (hpath : req.path = '/' :: (name ++ query)) (hname : '?' ∉ name) :
    r.staticPath req = some (Path.join r.config.staticDir name) := by
  have hrest : query.takeWhile (· ≠ '?') = [] := by
    obtain rfl | hhead := hquery
    · rfl
    · obtain ⟨query', rfl⟩ := List.head?_eq_some_iff.mp hhead
      rfl
  have hclean : req.cleanPath = '/' :: name := by
    rw [HttpRequest.cleanPath, hpath, List.takeWhile_cons_of_pos (by decide),
      List.takeWhile_append_of_pos, hrest, List.append_nil]
    intro c hc
    exact decide_eq_true (ne_of_mem_of_not_mem hc hname)
  rw [Reactor.staticPath, hclean]
  rfl

theorem fileResponse_contentType (path : Str) (mmap : MmapFile) :
    (Reactor.fileResponse path mmap).headers.lookup "Content-Type".toList =
      (Path.extension path).map Reactor.contentType := by
  have hnone : (HttpResponse.ok.setBody mmap.asSlice).headers.lookup "Content-Type".toList =
      none := by
    have hne : "Content-Type".toList ≠ "Content-Length".toList := by decide
    exact (AList.lookup_insert_ne hne).trans rfl
  unfold Reactor.fileResponse
  cases Path.extension path with
  | none => exact hnone
  | some ext => exact AList.lookup_insert _

/-- The answer to a request for a name is its page. -/
theorem page_of_respond {names : List Str} (hmode : r.config.mode = .fastPath)
    (hosts : Hosts env.fs r.config.staticDir site names) (hmem : name ∈ names)
    (hasks : AsksFor r buf name) (hresp : r.respond env m buf = .ok response) :
    Page r site name response.message := by
  obtain ⟨req, query, hparse, hpath, hquery, hname⟩ := hasks
  have hstatic := staticPath_of_asksFor (r := r) hquery hpath hname
  rw [Reactor.respond_fastPath hmode hparse] at hresp
  have hsite := hosts name hmem
  unfold Page
  cases hdata : site name with
  | none =>
    rw [hdata] at hsite
    rw [Reactor.handleStaticFile_missing hstatic hsite] at hresp
    obtain rfl := Except.ok.inj hresp
    rfl
  | some data =>
    rw [hdata] at hsite
    obtain ⟨hexist, hopen, hne⟩ := hsite
    have hmmap : (regular data).mmap data.length = .ok ⟨data, rfl⟩ := dif_pos rfl
    have hnew := mmapFile_new_of_mmap hopen rfl (by simpa using hne) hmmap
    rw [Reactor.handleStaticFile_mapped hstatic hexist hnew rfl] at hresp
    obtain rfl := Except.ok.inj hresp
    refine ⟨Reactor.fileResponse_statusCode _ _, Reactor.fileResponse_body _ _, ?_⟩
    exact (Finmap.lookup_toFinmap _ _).trans (fileResponse_contentType _ _)

theorem forall₂_flip_of_mem {α β : Type*} {R : α → β → Prop} {S : β → α → Prop} {l : List α}
    {l' : List β} (h : List.Forall₂ R l l') (hRS : ∀ a ∈ l, ∀ b ∈ l', R a b → S b a) :
    List.Forall₂ S l' l := by
  induction h with
  | nil => exact .nil
  | cons hab _ ih =>
    refine .cons (hRS _ List.mem_cons_self _ List.mem_cons_self hab) (ih fun a ha b hb => ?_)
    exact hRS a (List.mem_cons_of_mem _ ha) b (List.mem_cons_of_mem _ hb)

end Pages

/-- A static site over keep-alive connections: while other clients send what they like, a
client that asks for names, one in each read, reads back the page of each name in turn. -/
theorem site_served (r : Reactor) (hmode : r.config.mode = .fastPath) (site : Site)
    (listenFd epollFd : RawFd) (releases : OsError → Bool) (opened : Finset RawFd)
    (hopen : listenFd ∈ opened) (t : List Io) (p : System)
    (hrun : run (step r listenFd releases) (.enter epollFd, .start opened) t = some p)
    (htakes : ∀ io ∈ t, TakesAll io) (c : ℕ) (names : List Str)
    (hosts : ∀ fd buf env, .serve fd buf env ∈ t → Hosts env.fs r.config.staticDir site names)
    (hasks : List.Forall₂ (AsksFor r)
      (ofConnection c (Service.asks (trace r listenFd epollFd releases opened t))) names) :
    ∃ asked left messages, names = asked ++ left ∧ left.length ≤ 1 ∧
      Wire.responses (stream r listenFd epollFd releases opened t c) = some messages ∧
      List.Forall₂ (Page r site) asked messages ∧ (Resting p c → left = []) := by
  obtain ⟨a, log, m, hserves, hbooks⟩ := books_of_run hopen hrun
  let mine := log.filter fun x => x.connection = c
  obtain ⟨left, hquestions, hone, hdone⟩ := asked_by hserves hbooks c
  rw [hquestions] at hasks
  have hlen : names.length = mine.length + left.length := by
    rw [← hasks.length_eq, List.length_append, List.length_map]
  have hasked := List.forall₂_take mine.length hasks
  rw [List.take_left' (List.length_map ..), List.forall₂_map_left_iff] at hasked
  refine ⟨names.take mine.length, names.drop mine.length, mine.map fun x => x.answer.message,
    (List.take_append_drop _ _).symm, ?_, stream_decodes hrun htakes hbooks c, ?_, fun hrest => ?_⟩
  · rw [List.length_drop]
    omega
  · rw [List.forall₂_map_right_iff]
    refine forall₂_flip_of_mem hasked fun x hx name hmem hname => ?_
    have hlog := List.mem_of_mem_filter hx
    obtain ⟨m', hanswer⟩ := hbooks.serial.answer_of_mem hlog
    have hserved : x.env ∈ ofConnection x.connection
        (Service.serves (trace r listenFd epollFd releases opened t)) :=
      Service.mem_ofConnection.mpr
        (hbooks.atHand.served_prefix.subset (List.mem_map_of_mem hlog))
    obtain ⟨fd, buf, hserve⟩ := serve_of_mem_serves hserved
    exact page_of_respond hmode (hosts fd buf x.env hserve) (List.mem_of_mem_take hmem) hname
      (respond_of_answer hanswer)
  · rw [hdone hrest, List.length_nil, Nat.add_zero] at hlen
    exact List.drop_of_length_le hlen.le

def guideFile : Str := "./static/docs/guide.txt".toList

def guideSite : Site := fun name =>
  if name = "docs/guide.txt".toList then some [0x48, 0x69] else none

/-- A directory opens, but cannot be mapped. -/
def directory : OpenFile where
  len := .ok 4096
  mmap _ := .error "ENODEV".toList
  backed := true

/-- The file with the directories above it. -/
def guideTree : Filesystem where
  exist p := p ∈ [guideFile, "./static/docs".toList, "./static".toList, "./static/".toList]
  openFile p :=
    if p = guideFile then .ok (regular [0x48, 0x69])
    else if p ∈ ["./static/docs".toList, "./static".toList, "./static/".toList] then .ok directory
    else .error "ENOENT".toList

def guideSurroundings : Surroundings := ⟨guideTree, .ok []⟩

theorem guide_hosted :
    Hosts guideSurroundings.fs "./static".toList guideSite ["docs/guide.txt".toList] := by
  intro name hname
  obtain rfl := List.mem_singleton.mp hname
  exact ⟨rfl, rfl, by decide⟩

def guidePage : HttpResponse :=
  Reactor.fileResponse guideFile ⟨[0x48, 0x69], 2, true, rfl, by decide⟩

def guideTrace : List Io :=
  Persistence.asks Completeness.guideRequest.render ++
    [.serve 5 Completeness.guideRequest.render guideSurroundings] ++
    [.write 5 guidePage guidePage.fields (.ok guidePage.size)]

def guideServed : LoopState :=
  { Persistence.asked Completeness.guideRequest.render with
    point := .write 5 guidePage []
    metrics := ⟨1, 0⟩ }

theorem guide_run : ∃ p, run (step Reactor.stock 3 fun _ => true) (.enter 4, .start {3, 4})
    guideTrace = some p ∧ p.1.point = .top ∧
    Service.asks (trace Reactor.stock 3 4 (fun _ => true) {3, 4} guideTrace) =
      [(1, Completeness.guideRequest.render)] := by
  obtain ⟨k, hasked⟩ :=
    Persistence.asks_run Completeness.guideRequest.render (by decide) (by decide)
  have hparse := HttpRequest.parse_render referenceHttparse_canonical Completeness.guideRequest
    (by decide)
  have hpath (req : HttpRequest) (htarget : req.path = Completeness.guideRequest.target) :
      Reactor.stock.staticPath req = some guideFile := by
    rw [Reactor.staticPath, HttpRequest.cleanPath, htarget]
    rfl
  have hrespond : Reactor.stock.respond guideSurroundings ⟨1, 0⟩ Completeness.guideRequest.render =
      .ok guidePage := by
    rw [Reactor.respond_fastPath rfl hparse]
    exact Reactor.handleStaticFile_mapped (hpath _ rfl) rfl rfl rfl
  have hserve : step Reactor.stock 3 (fun _ => true)
      (Persistence.asked Completeness.guideRequest.render, k)
      (.serve 5 Completeness.guideRequest.render guideSurroundings) = some (guideServed, k) :=
    sync_iff.mpr ⟨Reactor.step_served rfl hrespond, rfl⟩
  have hserved := run_concat_iff.mpr ⟨_, hasked, hserve⟩
  obtain ⟨s, hwritten, htop, hasks⟩ := written_run hserved rfl guidePage.size
  refine ⟨(s, k), hwritten, htop, hasks.trans ?_⟩
  rw [asks_trace_concat hasked hserve, asks_serve]
  rfl

theorem guide_page_served : ∃ message, Wire.responses
      (stream Reactor.stock 3 4 (fun _ => true) {3, 4} guideTrace 1) = some [message] ∧
    message.statusCode = 200 ∧ message.body = [0x48, 0x69] := by
  obtain ⟨p, hrun, htop, hasks⟩ := guide_run
  have hparse := HttpRequest.parse_render referenceHttparse_canonical Completeness.guideRequest
    (by decide)
  obtain ⟨asked, left, messages, hnames, -, hmessages, hpages, hleft⟩ :=
    site_served Reactor.stock rfl guideSite 3 4 (fun _ => true) {3, 4} (by decide) guideTrace p hrun
      (by simp [guideTrace, Persistence.asks, TakesAll, HttpResponse.size])
      1 ["docs/guide.txt".toList] (by
        intro fd buf env hserve
        simp [guideTrace, Persistence.asks] at hserve
        rw [hserve.2.2]
        exact guide_hosted)
      (by
        rw [hasks]
        exact .cons ⟨_, "?v=1".toList, hparse, rfl, Or.inr rfl, by decide⟩ .nil)
  have hrest : left = [] := hleft (by rw [Resting, htop]; trivial)
  rw [hrest, List.append_nil] at hnames
  rw [← hnames] at hpages
  obtain ⟨message, _, hpage, hnil, rfl⟩ := List.forall₂_cons_left_iff.mp hpages
  obtain rfl := List.forall₂_nil_left_iff.mp hnil
  have hguide : guideSite "docs/guide.txt".toList = some [0x48, 0x69] := if_pos rfl
  rw [Page, hguide] at hpage
  exact ⟨message, hmessages, hpage.1, hpage.2.1⟩

end KernelEngine.Website
