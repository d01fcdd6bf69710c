import KernelEngine.Bench.RunBench
import KernelEngine.Rendering
import KernelEngine.Worker.EventLoop

namespace KernelEngine.Rehearsal
open Rust File Http HttpRequest Net Worker Bench Runs

section Texts

variable {n : ℕ} {s : Str}

theorem decimal_range {n : ℕ} {c : Char} (hc : c ∈ decimal n) : 48 ≤ c.toNat ∧ c.toNat ≤ 57 :=
  Char.isDigit_iff_toNat.mp (isDigit_of_mem_decimal hc)

theorem ascii_decimal (n : ℕ) : ∀ c ∈ decimal n, c.toNat < 128 := fun _ hc =>
  Nat.lt_of_le_of_lt (decimal_range hc).2 (by decide)

theorem bytes_decimal {b : UInt8} (hb : b ∈ (decimal n).bytes) : 48 ≤ b.toNat ∧ b.toNat ≤ 57 := by
  rw [bytes_of_ascii (ascii_decimal n)] at hb
  obtain ⟨c, hc, rfl⟩ := List.mem_map.mp hb
  rw [toNat_asciiByte (ascii_decimal n c hc)]
  exact decimal_range hc

theorem value_of_digit {b : UInt8} (hlow : 48 ≤ b.toNat) (hhigh : b.toNat ≤ 57) :
    isValueByte b = true ∧ isBlank b = false := by
  have hspace : (0x20 : UInt8) ≤ b := UInt8.le_iff_toNat_le.mpr (Nat.le_trans (by decide) hlow)
  have hdel : b ≠ 0x7F := by
    rintro rfl
    exact absurd hhigh (by decide)
  have htab : b ≠ 0x09 := by
    rintro rfl
    exact absurd hlow (by decide)
  have hblank : b ≠ 0x20 := by
    rintro rfl
    exact absurd hlow (by decide)
  simp [isValueByte, isBlank, hspace, hdel, htab, hblank]

/-- A number in decimal is the value of a field. -/
theorem fieldOk_decimal (n : ℕ) : fieldOk ("Content-Length".toList, decimal n) = true := by
  have hvalue {b : UInt8} (hb : b ∈ (decimal n).bytes) : isValueByte b = true ∧ isBlank b = false :=
    value_of_digit (bytes_decimal hb).1 (bytes_decimal hb).2
  have hname : (∀ c ∈ "Content-Length".toList, c.toNat < 128) ∧ "Content-Length".toList ≠ [] ∧
      ∀ b ∈ Str.bytes "Content-Length".toList, isToken b = true :=
    ⟨forall_of_all (by decide), by decide, List.all_eq_true.mp (by decide)⟩
  refine fieldOk_iff.mpr ⟨?_, hname.2, ?_, ?_, ?_⟩
  · exact List.forall_mem_append.mpr ⟨hname.1, ascii_decimal n⟩
  · exact fun b hb => (hvalue hb).1
  · exact fun b hb => (hvalue (List.mem_of_mem_head? hb)).2
  · exact fun b hb => (hvalue (List.mem_of_mem_getLast? hb)).2

theorem denotes_decimal (hn : n < 2 ^ 64) : Denotes (decimal n) n := by
  refine ⟨Nat.toDigits_ne_nil, fun c hc => isDigit_of_mem_decimal hc, ?_, hn⟩
  exact Nat.ofDigitChars_toDigits (by decide) (by decide)

/-- The fields of the request without payload. -/
def healthFields : List (Str × Str) :=
  [("Host".toList, "localhost".toList), ("Connection".toList, "keep-alive".toList)]

theorem fieldOk_healthFields : ∀ h ∈ healthFields, fieldOk h = true :=
  List.all_eq_true.mp (by decide)

/-- The request of a benchmark without payload. -/
def health : RequestText :=
  { RequestText.get "/api/health".toList (by decide) (by decide) with
    headers := healthFields
    ascii_headers := fun h hh => (fieldOk_iff.mp (fieldOk_healthFields h hh)).1
    token_names := fun h hh => (fieldOk_iff.mp (fieldOk_healthFields h hh)).2.1
    printable_values := fun h hh => (fieldOk_iff.mp (fieldOk_healthFields h hh)).2.2 }

/-- The request of a benchmark with payload, of which so many bytes have come. -/
def data (payloadSize received : ℕ) : RequestText :=
  .post "/api/data".toList true
    [("Host".toList, "localhost".toList), ("Content-Length".toList, decimal payloadSize),
      ("Connection".toList, "keep-alive".toList)]
    (List.replicate received 0x78) (by decide) (by decide) (by
      rw [List.all_cons, List.all_cons, fieldOk_decimal]
      decide)

theorem bytes_payload (payloadSize : ℕ) :
    Str.bytes (List.replicate payloadSize 'x') = List.replicate payloadSize 0x78 := by
  rw [bytes_of_ascii, List.map_replicate]
  · rfl
  · intro c hc
    rw [List.eq_of_mem_replicate hc]
    decide

theorem head_data (payloadSize received : ℕ) : (data payloadSize received).head =
    Str.bytes "POST /api/data HTTP/1.1\r\nHost: localhost\r\nContent-Length: ".toList ++
      (decimal payloadSize).bytes ++ Str.bytes "\r\nConnection: keep-alive\r\n\r\n".toList := by
  simp only [RequestText.head, RequestText.fields, RequestText.field, data, RequestText.post,
    List.flatMap_cons, List.flatMap_nil, List.append_assoc, List.cons_append]
  rfl

theorem bytes_data {payloadSize : ℕ} (h : payloadSize ≠ 0) :
    (createHttpRequest payloadSize).bytes = (data payloadSize payloadSize).render := by
  rw [createHttpRequest, if_neg h, bytes_append, bytes_append, bytes_append, bytes_payload,
    RequestText.render, head_data]
  rfl

/-- The bytes before the payload. -/
def headSize (payloadSize : ℕ) : ℕ := 86 + (decimal payloadSize).length

/-- The bytes of the payload that come with the first read. -/
def firstPart (payloadSize : ℕ) : ℕ := min payloadSize (readLen - headSize payloadSize)

theorem length_head (payloadSize received : ℕ) :
    (data payloadSize received).head.length = headSize payloadSize := by
  have hbefore : (Str.bytes
      "POST /api/data HTTP/1.1\r\nHost: localhost\r\nContent-Length: ".toList).length = 58 := by
    decide
  have hbehind : (Str.bytes "\r\nConnection: keep-alive\r\n\r\n".toList).length = 28 := by decide
  have hdigits : (decimal payloadSize).bytes.length = (decimal payloadSize).length := by
    rw [bytes_of_ascii (ascii_decimal _), List.length_map]
  rw [head_data, List.length_append, List.length_append, hbefore, hbehind, hdigits, headSize]
  omega

theorem length_request {payloadSize : ℕ} (h : payloadSize ≠ 0) :
    (createHttpRequest payloadSize).bytes.length = headSize payloadSize + payloadSize := by
  rw [bytes_data h, RequestText.render, List.length_append, length_head]
  exact congrArg _ List.length_replicate

theorem take_data {payloadSize : ℕ} (h : headSize payloadSize ≤ readLen) :
    (data payloadSize payloadSize).render.take readLen =
      (data payloadSize (firstPart payloadSize)).render := by
  rw [RequestText.render, List.take_append, length_head,
    List.take_of_length_le (length_head payloadSize payloadSize ▸ h)]
  have hbody : (data payloadSize payloadSize).body = List.replicate payloadSize 0x78 := rfl
  rw [hbody, List.take_replicate, min_comm]
  rfl

theorem firstPart_eq_iff (payloadSize : ℕ) : firstPart payloadSize = payloadSize ↔
    payloadSize ≤ 8102 := by
  have hfour : (decimal payloadSize).length ≤ 4 ↔ payloadSize < 10 ^ 4 :=
    Nat.length_toDigits_le_iff (by decide) (by decide)
  have hthree : (decimal payloadSize).length ≤ 3 ↔ payloadSize < 10 ^ 3 :=
    Nat.length_toDigits_le_iff (by decide) (by decide)
  rw [firstPart, min_eq_left_iff, headSize, readLen]
  omega

theorem headSize_le {payloadSize : ℕ} (h : payloadSize < 2 ^ 63) :
    headSize payloadSize ≤ readLen := by
  have hdigits : (decimal payloadSize).length ≤ 19 :=
    (Nat.length_toDigits_le_iff (by decide) (by decide)).mpr (h.trans (by decide))
  rw [headSize, readLen]
  omega

theorem payload_le (payloadSize : ℕ) :
    payloadSize ≤ (createHttpRequest payloadSize).bytes.length := by
  obtain rfl | hne := eq_or_ne payloadSize 0
  · exact Nat.zero_le _
  · rw [length_request hne]
    exact Nat.le_add_left _ _

/-- What one read brings of the request of a benchmark. -/
def firstRead (payloadSize : ℕ) : Bytes := (createHttpRequest payloadSize).bytes.take readLen

end Texts

/-- What a server in dynamic mode says to it. -/
def answerTo (payloadSize : ℕ) : HttpResponse :=
  if payloadSize = 0 then HttpResponse.ok.json (some Reactor.healthJson.bytes)
  else HttpResponse.notFound

/-- What the server makes of the request of a benchmark, once it has come. -/
structure Understood (httparse : Httparse) (payloadSize : ℕ) (req : HttpRequest) : Prop where
  parsed : parse httparse (firstRead payloadSize) = .ok req
  method : req.method = if payloadSize = 0 then "GET".toList else "POST".toList
  path : req.path = if payloadSize = 0 then "/api/health".toList else "/api/data".toList
  version : req.version = 1
  body : req.body = List.replicate (firstPart payloadSize) 0x78
  whole : req.body.length = payloadSize ↔ payloadSize ≤ 8102
  contentLength : req.contentLength = if payloadSize = 0 then none else some payloadSize
  hasBody : req.hasBody = true ↔ payloadSize ≠ 0
  keepAlive : req.isKeepAlive = true
  answer : ∀ (r : Reactor) (listenFd fd : RawFd) (rest : List (RawFd × EventFlags))
    (s : LoopState) (env : Surroundings), r.httparse = httparse → r.config.mode = .dynamicPath →
    s.point = .read fd rest → run (r.step listenFd) s [.read fd (.ok (firstRead payloadSize)),
        .serve fd (firstRead payloadSize) env] = some { s with
      point := .write fd (answerTo payloadSize) rest
      metrics.requestsTotal := incBy s.metrics.requestsTotal 1 }

/-- A request in canonical form is understood when its parts are the ones that count. -/
theorem understood_of_render {httparse : Httparse} (hc : Canonical httparse) {payloadSize : ℕ}
    {r : RequestText} (hbytes : firstRead payloadSize = r.render)
    (hlen : r.headers.length ≤ 64)
    (hmethod : r.method = if payloadSize = 0 then "GET".toList else "POST".toList)
    (htarget : r.target = if payloadSize = 0 then "/api/health".toList else "/api/data".toList)
    (hminor : r.minor = true) (hbody : r.body = List.replicate (firstPart payloadSize) 0x78)
    (hlength : Rendering.lastValue r "content-length".toList =
      if payloadSize = 0 then none else some (decimal payloadSize))
    (hconnection : Rendering.lastValue r "connection".toList = some "keep-alive".toList)
    (hsize : payloadSize < 2 ^ 64) : ∃ req, Understood httparse payloadSize req := by
  have hparse := parse_render hc r hlen
  rw [← hbytes] at hparse
  have hannounced : contentLength ⟨r.method, r.target, if r.minor then 1 else 0,
      r.raw.headers.foldl insertHeader ∅, r.body⟩ =
        if payloadSize = 0 then none else some payloadSize := by
    have hfield := (Rendering.lookup_render r "content-length".toList).trans hlength
    rw [contentLength, getHeader, hfield]
    split_ifs
    · rfl
    · exact fromStrRadix_of_denotes (denotes_decimal hsize) hsize
  refine ⟨_, hparse, hmethod, htarget, by rw [hminor]; rfl, hbody, ?_, hannounced, ?_, ?_, ?_⟩
  · dsimp only
    rw [hbody, List.length_replicate, firstPart_eq_iff]
  · rw [hasBody, hannounced]
    by_cases hzero : payloadSize = 0
    · simp [hzero, hbody, firstPart]
    · simp [hzero, Nat.pos_of_ne_zero hzero]
  · have hfield := (Rendering.lookup_render r "connection".toList).trans hconnection
    rw [isKeepAlive, getHeader, hfield]
    rfl
  · rintro server listenFd fd rest s env rfl hmode hp
    have hroute : Reactor.endpoint ⟨r.method, r.target, if r.minor then 1 else 0,
        r.raw.headers.foldl insertHeader ∅, r.body⟩ =
          if payloadSize = 0 then some .health else none := by
      rw [Reactor.endpoint, cleanPath, hmethod, htarget]
      by_cases hzero : payloadSize = 0
      · simp only [if_pos hzero]
        decide
      · simp only [if_neg hzero]
        decide
    have hne : firstRead payloadSize ≠ [] := by
      rw [hbytes]
      simp [RequestText.render, RequestText.head]
    refine Reactor.run_answered hp hne (List.length_take_le _ _) ?_
    rw [Reactor.respond_dynamicPath hmode hparse, answerTo]
    unfold Reactor.handleDynamic
    rw [hroute]
    split_ifs <;> rfl

/-- The request of a benchmark, or what one read brings of it, is one that the server parses,
with its payload as far as it has come, announced with its length, and keeps the connection
for. A server in dynamic mode answers the health check and knows no other path. A payload of
more than 8102 bytes does not come with the first read as a whole. -/
theorem benchmark_understood {httparse : Httparse} (hc : Canonical httparse) (payloadSize : ℕ)
    (hsize : (createHttpRequest payloadSize).bytes.length < 2 ^ 63) :
    ∃ req, Understood httparse payloadSize req := by
  have hpayload := (payload_le payloadSize).trans_lt hsize
  have h64 : payloadSize < 2 ^ 64 := hpayload.trans (by decide)
  obtain rfl | hne := eq_or_ne payloadSize 0
  · have hread : firstRead 0 = health.render := by decide
    exact understood_of_render hc hread (by decide) rfl rfl rfl rfl (by decide) (by decide) h64
  · have hread : firstRead payloadSize = (data payloadSize (firstPart payloadSize)).render := by
      rw [firstRead, bytes_data hne, take_data (headSize_le hpayload)]
    refine understood_of_render hc hread (Nat.le_of_ble_eq_true rfl) ?_ ?_ rfl rfl ?_ ?_ h64
    · rw [if_neg hne]
      rfl
    · rw [if_neg hne]
      rfl
    · rw [if_neg hne]
      rfl
    · rfl

/-- A kilobyte comes as a whole, and ten of them do not. -/
theorem kilobytes_understood :
    (∃ req, Understood referenceHttparse 1024 req ∧ req.body.length = 1024) ∧
    ∃ req, Understood referenceHttparse 10240 req ∧ req.body.length = 8101 := by
  have hone : (createHttpRequest 1024).bytes.length < 2 ^ 63 := by
    rw [length_request (by decide)]
    decide
  have hten : (createHttpRequest 10240).bytes.length < 2 ^ 63 := by
    rw [length_request (by decide)]
    decide
  obtain ⟨req, h⟩ := benchmark_understood referenceHttparse_canonical 1024 hone
  obtain ⟨req', h'⟩ := benchmark_understood referenceHttparse_canonical 10240 hten
  have hpart : firstPart 10240 = 8101 := by decide
  refine ⟨⟨req, h, h.whole.mpr (by decide)⟩, req', h', ?_⟩
  rw [h'.body, List.length_replicate, hpart]

end KernelEngine.Rehearsal
