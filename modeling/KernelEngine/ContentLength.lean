import KernelEngine.Http.Fields

namespace KernelEngine.ContentLength
open Rust Http Assoc HttpRequest

/-- The values of the Content-Length fields of a header section. -/
def lengthValues (raw : RawRequest) : List Bytes :=
  fieldValues "content-length".toList raw.headers

/-- The length that a header section announces: what is read from the last of them. -/
def announced (raw : RawRequest) : Option ℕ :=
  ((lengthValues raw).getLast?.map fromUtf8Lossy).bind parseUsize

/-- An accepted request has the body it announces, and one whose body is not all there is
incomplete. -/
structure BodyAgrees (httparse : Httparse) (buf : Bytes) : Prop where
  whole : ∀ req n, parse httparse buf = .ok req → req.contentLength = some n →
    req.body.length = n ∧ ∃ headLength raw,
      httparse 64 buf = .ok (.complete headLength, raw) ∧
        req.body = (buf.drop headLength).take n
  waits : ∀ headLength raw n, httparse 64 buf = .ok (.complete headLength, raw) →
    announced raw = some n → (buf.drop headLength).length < n →
    parse httparse buf = .error "Incomplete HTTP request".toList

section Body

variable {httparse : Httparse} {buf : Bytes} {req : HttpRequest} {raw : RawRequest}

theorem contentLength_eq (h : req.headers = raw.headers.foldl insertHeader ∅) :
    req.contentLength = announced raw := by
  rw [contentLength, getHeader_eq (by decide) (by decide) h]
  rfl

/-- The body is the rest of the buffer: it is as long as announced exactly when the buffer
ends there. -/
theorem body_agrees_iff (hf : Filled httparse) (buf : Bytes) :
    BodyAgrees httparse buf ↔ ∀ headLength raw n,
      httparse 64 buf = .ok (.complete headLength, raw) → announced raw = some n →
        (buf.drop headLength).length = n := by
  constructor
  · intro h headLength raw n hp hn
    obtain ⟨hm, hpath, hv⟩ := hf 64 buf headLength raw hp
    obtain ⟨m, hm⟩ := Option.isSome_iff_exists.mp hm
    obtain ⟨p, hpath⟩ := Option.isSome_iff_exists.mp hpath
    obtain ⟨v, hv⟩ := Option.isSome_iff_exists.mp hv
    have hparse := parse_of_complete hp hm hpath hv
    exact (h.whole _ n hparse ((contentLength_eq rfl).trans hn)).1
  · intro h
    constructor
    · intro req n hparse hn
      obtain ⟨headLength, raw, hp, -, -, -, hheaders, hbody⟩ := parse_ok_iff.mp hparse
      have hlen := h headLength raw n hp ((contentLength_eq hheaders).symm.trans hn)
      refine ⟨hbody ▸ hlen, headLength, raw, hp, ?_⟩
      rw [hbody, List.take_of_length_le (Nat.le_of_eq hlen)]
    · intro headLength raw n hp hn hlt
      exact absurd (h headLength raw n hp hn) (Nat.ne_of_lt hlt)

end Body

def wholeUpload : RequestText :=
  .post "/upload".toList true [("Content-Length".toList, "3".toList)] [0x61, 0x62, 0x63]
    (by decide) (by decide) (by decide)

theorem whole_agrees : BodyAgrees referenceHttparse wholeUpload.render := by
  refine (body_agrees_iff referenceHttparse_filled _).mpr fun headLength raw n hp hn => ?_
  have hp' := referenceHttparse_canonical.accepts 64 wholeUpload (by decide)
  obtain ⟨hstatus, rfl⟩ := Prod.mk.inj (Except.ok.inj (hp.symm.trans hp'))
  obtain rfl := Status.complete.inj hstatus
  have hthree : announced wholeUpload.raw = some 3 := by decide
  obtain rfl := Option.some.inj (hthree.symm.trans hn)
  rw [RequestText.render, List.drop_left]
  rfl

def shortUpload : RequestText :=
  .post "/upload".toList true [("Content-Length".toList, "5".toList)] [0x61, 0x62]
    (by decide) (by decide) (by decide)

theorem truncated_accepted : ∃ req, parse referenceHttparse shortUpload.render = .ok req ∧
    req.contentLength = some 5 ∧ req.body = [0x61, 0x62] ∧
      ¬ BodyAgrees referenceHttparse shortUpload.render := by
  have hparse := parse_render referenceHttparse_canonical shortUpload (by decide)
  have hfive : announced shortUpload.raw = some 5 := by decide
  refine ⟨_, hparse, (contentLength_eq rfl).trans hfive, rfl, fun h => ?_⟩
  exact absurd (h.whole _ 5 hparse ((contentLength_eq rfl).trans hfive)).1 (by decide)

/-- A value of digits alone. -/
def IsLength (v : Bytes) (n : ℕ) : Prop := ∃ s : Str, v = s.bytes ∧ Denotes s n

/-- What is read from a value: a plus sign is skipped. -/
def Reads (v : Bytes) (n : ℕ) : Prop := IsLength v n ∨ ∃ w, v = 0x2B :: w ∧ IsLength w n

section Values

variable {httparse : Httparse} {buf : Bytes} {req : HttpRequest} {raw : RawRequest} {v : Bytes}
  {m n headLength : ℕ}

theorem reads_iff : parseUsize (fromUtf8Lossy v) = some n ↔ Reads v n := by
  have hplus (t : Str) : Str.bytes ('+' :: t) = 0x2B :: t.bytes := rfl
  constructor
  · intro h
    have hv := bytes_fromUtf8Lossy (ascii_of_parseUsize h)
    obtain h | ⟨t, ht, h⟩ := parseUsize_iff.mp h
    · exact Or.inl ⟨_, hv.symm, h⟩
    · rw [ht, hplus] at hv
      exact Or.inr ⟨Str.bytes t, hv.symm, t, rfl, h⟩
  · rintro (⟨s, rfl, h⟩ | ⟨w, rfl, s, rfl, h⟩)
    · rw [fromUtf8Lossy_bytes, parseUsize_iff]
      exact Or.inl h
    · rw [← hplus, fromUtf8Lossy_bytes, parseUsize_iff]
      exact Or.inr ⟨s, rfl, h⟩

theorem Reads.unique (hm : Reads v m) (hn : Reads v n) : m = n :=
  Option.some.inj ((reads_iff.mpr hm).symm.trans (reads_iff.mpr hn))

/-- The length is the one that all fields agree on exactly when they do, or when nothing is
read from the last of them. -/
theorem unambiguous_iff (hparse : parse httparse buf = .ok req)
    (hraw : httparse 64 buf = .ok (.complete headLength, raw)) :
    (∀ n, req.contentLength = some n ↔
        lengthValues raw ≠ [] ∧ ∀ v ∈ lengthValues raw, IsLength v n) ↔
      (∀ v ∈ (lengthValues raw).getLast?, ∀ n, ¬ Reads v n) ∨
        ∃ n, ∀ v ∈ lengthValues raw, IsLength v n := by
  rw [contentLength_eq (headers_of_parse hparse hraw), announced]
  cases hlast : (lengthValues raw).getLast? with
  | none =>
    have hempty := List.getLast?_eq_none_iff.mp hlast
    simp [hempty]
  | some v =>
    have hv : v ∈ lengthValues raw := List.mem_of_getLast? hlast
    simp only [Option.map_some, Option.bind_some, reads_iff]
    constructor
    · intro h
      by_cases hread : ∃ n, Reads v n
      · obtain ⟨n, hn⟩ := hread
        exact Or.inr ⟨n, ((h n).mp hn).2⟩
      · left
        rintro w hw n hn
        obtain rfl := Option.some.inj hw
        exact hread ⟨n, hn⟩
    · rintro (h | ⟨n, h⟩) k
      · refine iff_of_false (h v rfl k) fun hk => ?_
        exact h v rfl k (Or.inl (hk.2 v hv))
      · constructor
        · intro hk
          obtain rfl := hk.unique (Or.inl (h v hv))
          exact ⟨List.ne_nil_of_mem hv, h⟩
        · exact fun hk => Or.inl (hk.2 v hv)

end Values

def agreeingUpload : RequestText :=
  .post "/upload".toList true
    [("Content-Length".toList, "2".toList), ("content-length".toList, "002".toList)] [0x61, 0x62]
    (by decide) (by decide) (by decide)

theorem agreeing_read : ∃ req, parse referenceHttparse agreeingUpload.render = .ok req ∧
    ∀ n, req.contentLength = some n ↔ lengthValues agreeingUpload.raw ≠ [] ∧
      ∀ v ∈ lengthValues agreeingUpload.raw, IsLength v n := by
  have hparse := parse_render referenceHttparse_canonical agreeingUpload (by decide)
  have hraw := referenceHttparse_canonical.accepts 64 agreeingUpload (by decide)
  have hvalues : lengthValues agreeingUpload.raw =
      [Str.bytes "2".toList, Str.bytes "002".toList] := by decide
  have htwo : IsLength (Str.bytes "2".toList) 2 :=
    ⟨_, rfl, by decide, List.all_eq_true.mp (by decide), by decide, by decide⟩
  have hpadded : IsLength (Str.bytes "002".toList) 2 :=
    ⟨_, rfl, by decide, List.all_eq_true.mp (by decide), by decide, by decide⟩
  refine ⟨_, hparse, (unambiguous_iff hparse hraw).mpr (Or.inr ⟨2, ?_⟩)⟩
  rw [hvalues, List.forall_mem_cons, List.forall_mem_singleton]
  exact ⟨htwo, hpadded⟩

def conflictingUpload : RequestText :=
  .post "/upload".toList true
    [("Content-Length".toList, "5".toList), ("Content-Length".toList, "6".toList)] []
    (by decide) (by decide) (by decide)

theorem conflict_accepted : ∃ req, parse referenceHttparse conflictingUpload.render = .ok req ∧
    req.contentLength = some 6 ∧
    ¬ ∀ n, req.contentLength = some n ↔ lengthValues conflictingUpload.raw ≠ [] ∧
      ∀ v ∈ lengthValues conflictingUpload.raw, IsLength v n := by
  have hparse := parse_render referenceHttparse_canonical conflictingUpload (by decide)
  have hsix : announced conflictingUpload.raw = some 6 := by decide
  refine ⟨_, hparse, (contentLength_eq rfl).trans hsix, fun h => ?_⟩
  have hall := ((h 6).mp ((contentLength_eq rfl).trans hsix)).2
  have hvalues : lengthValues conflictingUpload.raw =
      [Str.bytes "5".toList, Str.bytes "6".toList] := by decide
  rw [hvalues] at hall
  have hfive : IsLength (Str.bytes "5".toList) 5 :=
    ⟨_, rfl, by decide, List.all_eq_true.mp (by decide), by decide, by decide⟩
  have hboth := Reads.unique (Or.inl hfive) (Or.inl (hall _ List.mem_cons_self))
  exact absurd hboth (by decide)

end KernelEngine.ContentLength
