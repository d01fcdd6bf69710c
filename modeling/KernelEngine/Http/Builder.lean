import KernelEngine.Http.Response

namespace KernelEngine.Http
open Rust

/-- One call on a response under construction. `json` is given what `serde_json` makes of
its data. -/
inductive Build where
  | setBody (body : Bytes)
  | html (html : Str)
  | text (text : Str)
  | json (body : Bytes)
  | withHeader (name value : Str)

/-- The name is `Content-Length` up to letter case. -/
def IsContentLength (name : Str) : Prop := toLowercase name = "content-length".toList

instance (name : Str) : Decidable (IsContentLength name) := inferInstanceAs (Decidable (_ = _))

/-- A header that fits on one line and has its colon behind the name. -/
structure FitsLine (h : Str × Str) : Prop where
  name : ':' ∉ h.1 ∧ '\r' ∉ h.1 ∧ '\n' ∉ h.1
  value : '\r' ∉ h.2 ∧ '\n' ∉ h.2

instance (h : Str × Str) : Decidable (FitsLine h) :=
  decidable_of_iff (_ ∧ _) ⟨fun hfits => ⟨hfits.1, hfits.2⟩, fun hfits => ⟨hfits.1, hfits.2⟩⟩

namespace Build

def apply (r : HttpResponse) : Build → HttpResponse
  | .setBody body => r.setBody body
  | .html page => r.html page
  | .text content => r.text content
  | .json body => r.json (some body)
  | .withHeader name value => r.withHeader name value

def setsBody : Build → Bool
  | .withHeader _ _ => false
  | _ => true

/-- A header given by hand fits on its line and does not speak of the length. -/
def Allowed : Build → Prop
  | .withHeader name value => FitsLine (name, value) ∧ ¬ IsContentLength name
  | _ => True

/-- A header given by hand is not the length that the setters write. -/
def SparesLength : Build → Prop
  | .withHeader name _ => name ≠ "Content-Length".toList
  | _ => True

theorem Allowed.sparesLength {b : Build} (h : b.Allowed) : b.SparesLength := by
  cases b with
  | setBody | html | text | json => trivial
  | withHeader name value =>
    rintro rfl
    exact h.2 (by decide)

end Build

/-- A response made by a chain of calls. -/
def build (code : ℕ) (chain : List Build) : HttpResponse := chain.foldl Build.apply (.new code)

/-- What holds of every response so built: its headers fit their lines, and its length is
given under one name, if at all. -/
structure Sound (r : HttpResponse) : Prop where
  status : r.statusText = statusTextForCode r.statusCode
  headers : ∀ name value, r.headers.lookup name = some value →
    FitsLine (name, value) ∧ (IsContentLength name → name = "Content-Length".toList)

/-- The length is given, and is that of the body. -/
def Measured (r : HttpResponse) : Prop :=
  r.headers.lookup "Content-Length".toList = some (decimal r.body.length)

section Chain

variable {r : HttpResponse} {b : Build} {name value : Str}

theorem Sound.withHeader (h : Sound r) (hline : FitsLine (name, value))
    (hname : IsContentLength name → name = "Content-Length".toList) :
    Sound (r.withHeader name value) where
  status := h.status
  headers k v hk := by
    by_cases hkey : k = name
    · subst hkey
      rw [HttpResponse.withHeader, AList.lookup_insert] at hk
      exact Option.some.inj hk ▸ ⟨hline, hname⟩
    · exact h.headers k v ((AList.lookup_insert_ne hkey).symm.trans hk)

/-- The body is not looked at. -/
theorem Sound.withBody (h : Sound r) (body : Bytes) : Sound { r with body := body } :=
  ⟨h.status, h.headers⟩

theorem fitsLine_length (n : ℕ) : FitsLine ("Content-Length".toList, decimal n) where
  name := by dsimp only; decide
  value := ⟨not_mem_decimal (by decide), not_mem_decimal (by decide)⟩

theorem Sound.setBody (h : Sound r) (body : Bytes) : Sound (r.setBody body) :=
  (h.withBody body).withHeader (fitsLine_length _) fun _ => rfl

theorem Sound.typedBody (h : Sound r) {contentType : Str}
    (htype : '\r' ∉ contentType ∧ '\n' ∉ contentType) (body : Bytes) :
    Sound (r.typedBody contentType body) := by
  have hname : ¬ IsContentLength "Content-Type".toList := by decide
  have hline : FitsLine ("Content-Type".toList, contentType) := ⟨by dsimp only; decide, htype⟩
  exact ((h.withBody body).withHeader hline fun hc => (hname hc).elim).withHeader
    (fitsLine_length _) fun _ => rfl

theorem Sound.apply (h : Sound r) (hb : b.Allowed) : Sound (b.apply r) := by
  cases b with
  | setBody body => exact h.setBody body
  | html page => exact h.typedBody (by decide) _
  | text content => exact h.typedBody (by decide) _
  | json body => exact h.typedBody (by decide) _
  | withHeader name value => exact h.withHeader hb.1 fun hname => (hb.2 hname).elim

theorem sound_new (code : ℕ) : Sound (.new code) := by
  have hempty : Sound ⟨code, statusTextForCode code, ∅, []⟩ :=
    ⟨rfl, fun name value h => by simp at h⟩
  have hserver : ¬ IsContentLength "Server".toList := by decide
  have hconnection : ¬ IsContentLength "Connection".toList := by decide
  exact (hempty.withHeader ⟨by decide, by decide⟩ fun hname => (hserver hname).elim).withHeader
    ⟨by decide, by decide⟩ fun hname => (hconnection hname).elim

/-- Every body setter writes the length, and no other call touches it. -/
theorem measured_apply (hb : b.SparesLength) (h : Measured r ∨ b.setsBody = true) :
    Measured (b.apply r) := by
  cases b with
  | setBody | html | text | json => exact AList.lookup_insert _
  | withHeader name value =>
    exact (AList.lookup_insert_ne (Ne.symm hb)).trans (h.resolve_right Bool.false_ne_true)

theorem sound_build (code : ℕ) {chain : List Build} (hchain : ∀ b ∈ chain, b.Allowed) :
    Sound (build code chain) :=
  List.foldlRecOn chain _ (sound_new code) fun _ h b hb => h.apply (hchain b hb)

/-- A body setter anywhere in the chain gives the response its length for good. -/
theorem measured_build (code : ℕ) {chain : List Build} (hchain : ∀ b ∈ chain, b.SparesLength)
    (hbody : ∃ b ∈ chain, b.setsBody = true) : Measured (build code chain) := by
  induction chain using List.reverseRecOn with
  | nil => simp at hbody
  | append_singleton chain b ih =>
    have hrest (b' : Build) (hb' : b' ∈ chain) := hchain b' (List.mem_append_left _ hb')
    rw [build, List.foldl_append]
    refine measured_apply (hchain b (by simp)) ?_
    obtain ⟨b', hmem, hsets⟩ := hbody
    obtain hold | hlast := List.mem_append.mp hmem
    · exact Or.inl (ih hrest ⟨b', hold, hsets⟩)
    · exact Or.inr (List.mem_singleton.mp hlast ▸ hsets)

end Chain

end KernelEngine.Http
