import KernelEngine.Http.Wire
import KernelEngine.Lib.Assoc

namespace KernelEngine.Http
open Rust Assoc

/-- `str::eq_ignore_ascii_case`. -/
def SameName (s t : Str) : Prop := s.map Char.toLower = t.map Char.toLower

instance (s t : Str) : Decidable (SameName s t) := inferInstanceAs (Decidable (_ = _))

namespace Build

/-- The header given by hand. -/
def given : Build → Option (Str × Str)
  | .withHeader name value => some (name, value)
  | _ => none

def contentType : Build → Option Str
  | .html _ => some "text/html; charset=utf-8".toList
  | .text _ => some "text/plain; charset=utf-8".toList
  | .json _ => some "application/json".toList
  | _ => none

def body : Build → Option Bytes
  | .setBody body => some body
  | .html page => some page.bytes
  | .text content => some content.bytes
  | .json body => some body
  | .withHeader _ _ => none

theorem setsBody_eq (b : Build) : b.setsBody = b.body.isSome := by
  cases b <;> rfl

def typeHeader (contentType : Str) : Str × Str := ("Content-Type".toList, contentType)

def lengthHeader (body : Bytes) : Str × Str := ("Content-Length".toList, decimal body.length)

/-- The headers a call inserts, in order. -/
def writes (b : Build) : List (Str × Str) :=
  b.given.toList ++ (b.contentType.map typeHeader).toList ++ (b.body.map lengthHeader).toList

end Build

/-- A call in a chain of them: one that is carried out, or a `json` whose data `serde_json`
cannot serialise. -/
inductive Link where
  | done (b : Build)
  | jsonFailed

namespace Link

def apply (r : HttpResponse) : Link → HttpResponse
  | .done b => b.apply r
  | .jsonFailed => r.json none

def build? : Link → Option Build
  | .done b => some b
  | .jsonFailed => none

/-- The header given by hand. -/
def given (c : Link) : Option (Str × Str) := c.build?.bind Build.given

def contentType (c : Link) : Option Str := c.build?.bind Build.contentType

def body (c : Link) : Option Bytes := c.build?.bind Build.body

def writes (c : Link) : List (Str × Str) := c.build?.elim [] Build.writes

end Link

/-- A response made by a chain of calls. -/
def construct (code : ℕ) (chain : List Link) : HttpResponse :=
  chain.foldl Link.apply (.new code)

section Chain

variable {r : HttpResponse} {c : Link} {chain post : List Link} {code : ℕ} {name value k : Str}
  {order : List (Str × Str)}

/-- A failed serialisation leaves no trace. -/
theorem construct_eq_build (code : ℕ) (chain : List Link) :
    construct code chain = build code (chain.filterMap Link.build?) := by
  rw [construct, build, List.foldl_filterMap]
  congr 1
  funext r c
  cases c <;> rfl

theorem mem_builds {b : Build} : b ∈ chain.filterMap Link.build? ↔ .done b ∈ chain := by
  rw [List.mem_filterMap]
  constructor
  · rintro ⟨c, hc, hb⟩
    cases c with
    | done b' => exact Option.some.inj hb ▸ hc
    | jsonFailed => cases hb
  · exact fun hb => ⟨_, hb, rfl⟩

theorem headers_apply (r : HttpResponse) (c : Link) :
    (c.apply r).headers = fill Prod.fst Prod.snd r.headers c.writes := by
  cases c with
  | done b => cases b <;> rfl
  | jsonFailed => rfl

theorem headers_construct (code : ℕ) (chain : List Link) :
    (construct code chain).headers =
      fill Prod.fst Prod.snd (HttpResponse.new code).headers (chain.flatMap Link.writes) := by
  rw [fill_flatMap]
  exact (List.foldl_hom HttpResponse.headers fun r c => (headers_apply r c).symm).symm

theorem mem_new_headers : k ∈ (HttpResponse.new code).headers ↔
    k = "Connection".toList ∨ k = "Server".toList := by
  simp only [HttpResponse.new, AList.mem_insert, AList.notMem_empty, or_false]

theorem mem_writes {h : Str × Str} : h ∈ c.writes ↔ c.given = some h ∨
    c.contentType.map Build.typeHeader = some h ∨ c.body.map Build.lengthHeader = some h := by
  cases c with
  | done b => simp [Link.writes, Link.given, Link.contentType, Link.body, Link.build?, Build.writes]
  | jsonFailed => simp [Link.writes, Link.given, Link.contentType, Link.body, Link.build?]

end Chain

end KernelEngine.Http
