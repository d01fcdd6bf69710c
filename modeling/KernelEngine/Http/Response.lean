import KernelEngine.Http.Request

namespace KernelEngine.Http
open Rust

structure HttpResponse where
  statusCode : ℕ
  statusText : Str
  headers : HeaderMap
  body : Bytes
  deriving DecidableEq

/-- `status_text_for_code`. -/
def statusTextForCode : ℕ → Str
  | 200 => "OK".toList
  | 201 => "Created".toList
  | 204 => "No Content".toList
  | 301 => "Moved Permanently".toList
  | 302 => "Found".toList
  | 304 => "Not Modified".toList
  | 400 => "Bad Request".toList
  | 401 => "Unauthorized".toList
  | 403 => "Forbidden".toList
  | 404 => "Not Found".toList
  | 405 => "Method Not Allowed".toList
  | 408 => "Request Timeout".toList
  | 413 => "Payload Too Large".toList
  | 414 => "URI Too Long".toList
  | 500 => "Internal Server Error".toList
  | 501 => "Not Implemented".toList
  | 502 => "Bad Gateway".toList
  | 503 => "Service Unavailable".toList
  | 504 => "Gateway Timeout".toList
  | _ => "Unknown".toList

namespace HttpResponse

/-- `HttpResponse::new`. -/
def new (statusCode : ℕ) : HttpResponse where
  statusCode := statusCode
  statusText := statusTextForCode statusCode
  headers := ((∅ : HeaderMap).insert "Server".toList "RustKernelEngine/0.1".toList).insert
    "Connection".toList "keep-alive".toList
  body := []

/-- `HttpResponse::with_header`. -/
def withHeader (r : HttpResponse) (name value : Str) : HttpResponse :=
  { r with headers := r.headers.insert name value }

/-- `HttpResponse::set_body`. -/
def setBody (r : HttpResponse) (body : Bytes) : HttpResponse :=
  { r with body := body }.withHeader "Content-Length".toList (decimal body.length)

/-- The common part of `json`, `html` and `text`. -/
def typedBody (r : HttpResponse) (contentType : Str) (body : Bytes) : HttpResponse :=
  (({ r with body := body } : HttpResponse).withHeader "Content-Type".toList contentType).withHeader
    "Content-Length".toList (decimal body.length)

/-- `HttpResponse::json`, given what `serde_json::to_vec` returns for the data. -/
def json (r : HttpResponse) (data : Option Bytes) : HttpResponse :=
  match data with
  | some body => r.typedBody "application/json".toList body
  | none => r

/-- `HttpResponse::html`. -/
def html (r : HttpResponse) (html : Str) : HttpResponse :=
  r.typedBody "text/html; charset=utf-8".toList html.bytes

/-- `HttpResponse::text`. -/
def text (r : HttpResponse) (text : Str) : HttpResponse :=
  r.typedBody "text/plain; charset=utf-8".toList text.bytes

/-- `HttpResponse::ok`. -/
def ok : HttpResponse := new 200

/-- `HttpResponse::not_found`. -/
def notFound : HttpResponse := (new 404).setBody (Str.bytes "404 Not Found".toList)

/-- `HttpResponse::bad_request`. -/
def badRequest : HttpResponse := (new 400).setBody (Str.bytes "400 Bad Request".toList)

/-- The header map as the pairs its iterator yields, in one of its orders. -/
def fields (r : HttpResponse) : List (Str × Str) := r.headers.entries.map fun e => (e.1, e.2)

def statusLine (r : HttpResponse) : Bytes :=
  Str.bytes ("HTTP/1.1 ".toList ++ decimal r.statusCode ++ " ".toList ++ r.statusText ++
    "\r\n".toList)

def headerLine (h : Str × Str) : Bytes := Str.bytes (h.1 ++ ": ".toList ++ h.2 ++ "\r\n".toList)

/-- `HttpResponse::to_bytes`, for the order in which the header map is iterated. -/
def toBytes (r : HttpResponse) (order : List (Str × Str)) : Bytes :=
  r.statusLine ++ order.flatMap headerLine ++ Str.bytes "\r\n".toList ++ r.body

/-- The length `HttpResponse::size` reports: it does not depend on the order. -/
def size (r : HttpResponse) : ℕ := (r.toBytes r.fields).length

theorem toBytes_length {r : HttpResponse} {order : List (Str × Str)}
    (h : order.Perm r.fields) : (r.toBytes order).length = r.size := by
  simp only [size, toBytes, List.length_append, (h.flatMap_right headerLine).length_eq]

end HttpResponse

end KernelEngine.Http
