import KernelEngine.Http.Fields
import Mathlib.Data.List.DropRight

namespace KernelEngine.KeepAlive
open Rust Http Assoc HttpRequest

def isBlankChar (c : Char) : Bool := c == ' ' || c == '\t'

/-- The text without the blanks around it. -/
def trimBlanks (s : Str) : Str := (s.dropWhile isBlankChar).rdropWhile isBlankChar

/-- The values of the Connection fields. -/
def connectionValues (raw : RawRequest) : List Str :=
  (fieldValues "connection".toList raw.headers).map fromUtf8Lossy

/-- One of the values, read as a list separated by commas, has this token in it. -/
def Lists (token : Str) (values : List Str) : Prop :=
  ∃ v ∈ values, ∃ t ∈ v.splitOn ',', toLowercase (trimBlanks t) = token

/-- What the Connection fields and the version ask for. -/
def Persists (values : List Str) (version : ℕ) : Prop :=
  ¬ Lists "close".toList values ∧ (1 ≤ version ∨ Lists "keep-alive".toList values)

section Tokens

variable {s : Str} {c : Char} {values : List Str}

theorem trimBlanks_eq_self (h : ∀ c ∈ s, isBlankChar c = false) : trimBlanks s = s := by
  have hdrop : s.dropWhile isBlankChar = s := by
    cases s with
    | nil => rfl
    | cons c s => exact List.dropWhile_cons_of_neg (by simp [h c List.mem_cons_self])
  rw [trimBlanks, hdrop, List.rdropWhile_eq_self_iff]
  intro hne
  rw [h _ (List.getLast_mem hne)]
  exact Bool.false_ne_true

theorem mem_toLowercase (hc : toLowercase [c] = [c]) (h : c ∈ s) : c ∈ toLowercase s := by
  have hsame : (if c = Char.ofNat 0x212A then 'k' else c.toLower) = c := List.singleton_inj.mp hc
  exact List.mem_map.mpr ⟨c, h, hsame⟩

theorem not_lists_nil (token : Str) : ¬ Lists token [] := by
  rintro ⟨v, hv, -⟩
  cases hv

/-- A value that is a single token lists it. -/
theorem lists_of_value {token : Str} (h : s ∈ values) (hs : toLowercase s = token)
    (hcomma : ',' ∉ token) (hspace : ' ' ∉ token) (htab : '\t' ∉ token) : Lists token values := by
  have hfree (c : Char) (hc : toLowercase [c] = [c]) (hnot : c ∉ token) : c ∉ s := fun hmem =>
    hnot (hs ▸ mem_toLowercase hc hmem)
  have hsplit : s.splitOn ',' = [s] := List.splitOn_eq_singleton (hfree ',' (by decide) hcomma)
  refine ⟨s, h, s, by rw [hsplit]; exact List.mem_singleton_self s, ?_⟩
  rw [trimBlanks_eq_self, hs]
  intro c hc
  have hne : c ≠ ' ' := fun heq => hfree ' ' (by decide) hspace (heq ▸ hc)
  have hne' : c ≠ '\t' := fun heq => hfree '\t' (by decide) htab (heq ▸ hc)
  simp [isBlankChar, hne, hne']

end Tokens

section Decision

variable {httparse : Httparse} {buf : Bytes} {req : HttpRequest} {raw : RawRequest}
  {headLength : ℕ}

theorem isKeepAlive_iff (h : req.headers = raw.headers.foldl insertHeader ∅) :
    req.isKeepAlive = true ↔ match (connectionValues raw).getLast? with
      | some v => toLowercase v = "keep-alive".toList
      | none => 1 ≤ req.version := by
  rw [isKeepAlive, getHeader_eq (by decide) (by decide) h, connectionValues, List.getLast?_map]
  cases (fieldValues "connection".toList raw.headers).getLast? with
  | none => simp
  | some v => simp

theorem isKeepAlive_iff_of_last {v : Str} (h : req.headers = raw.headers.foldl insertHeader ∅)
    (hlast : (connectionValues raw).getLast? = some v) :
    req.isKeepAlive = true ↔ toLowercase v = "keep-alive".toList := by
  rw [isKeepAlive_iff h, hlast]

/-- The decision is the one asked for exactly when the last value, compared as a whole,
leaves nothing out: it is `keep-alive` and no value lists `close`, or it is something else and
the connection is not to be kept anyway. -/
theorem decision_iff (hparse : parse httparse buf = .ok req)
    (hraw : httparse 64 buf = .ok (.complete headLength, raw)) :
    (req.isKeepAlive = true ↔ Persists (connectionValues raw) req.version) ↔
      ∀ v ∈ (connectionValues raw).getLast?,
        if toLowercase v = "keep-alive".toList then ¬ Lists "close".toList (connectionValues raw)
        else Lists "close".toList (connectionValues raw) ∨
          (req.version = 0 ∧ ¬ Lists "keep-alive".toList (connectionValues raw)) := by
  rw [isKeepAlive_iff (headers_of_parse hparse hraw)]
  cases hlast : (connectionValues raw).getLast? with
  | none =>
    have hempty := List.getLast?_eq_none_iff.mp hlast
    rw [hempty, Persists, iff_true_intro (not_lists_nil _), true_and,
      or_iff_left (not_lists_nil _)]
    simp only [Option.mem_def, reduceCtorEq, false_imp_iff, implies_true]
  | some v =>
    simp only [Option.mem_some_iff, forall_eq']
    split_ifs with hv
    · have hkeep : Lists "keep-alive".toList (connectionValues raw) :=
        lists_of_value (List.mem_of_getLast? hlast) hv (by decide) (by decide) (by decide)
      rw [Persists, iff_true_intro hv, true_iff, and_iff_left (Or.inr hkeep)]
    · rw [Persists, iff_false_intro hv, false_iff, not_and_or, not_not, not_or, Nat.not_le,
        Nat.lt_one_iff]

end Decision

def closingRequest : RequestText :=
  .post "/status".toList true
    [("Connection".toList, "TE , Close".toList), ("connection".toList, "upgrade".toList)] []
    (by decide) (by decide) (by decide)

theorem closing_closed : ∃ req, parse referenceHttparse closingRequest.render = .ok req ∧
    (req.isKeepAlive = true ↔ Persists (connectionValues closingRequest.raw) req.version) := by
  have hparse := parse_render referenceHttparse_canonical closingRequest (by decide)
  have hraw := referenceHttparse_canonical.accepts 64 closingRequest (by decide)
  refine ⟨_, hparse, (decision_iff hparse hraw).mpr fun v hv => ?_⟩
  have hvalues : connectionValues closingRequest.raw =
      ["TE , Close".toList, "upgrade".toList] := by decide
  rw [hvalues] at hv ⊢
  obtain rfl := Option.some.inj hv
  rw [if_neg (by decide)]
  exact Or.inl ⟨"TE , Close".toList, by decide, " Close".toList, by decide, by decide⟩

def upgradeRequest : RequestText :=
  .post "/status".toList true [("Connection".toList, "keep-alive, Upgrade".toList)] []
    (by decide) (by decide) (by decide)

theorem upgrade_not_kept : ∃ req, parse referenceHttparse upgradeRequest.render = .ok req ∧
    req.isKeepAlive = false ∧ Persists (connectionValues upgradeRequest.raw) req.version ∧
      ¬ (req.isKeepAlive = true ↔ Persists (connectionValues upgradeRequest.raw) req.version) := by
  have hparse := parse_render referenceHttparse_canonical upgradeRequest (by decide)
  have hvalues : connectionValues upgradeRequest.raw = ["keep-alive, Upgrade".toList] := by decide
  have hlast : (connectionValues upgradeRequest.raw).getLast? =
      some "keep-alive, Upgrade".toList := by rw [hvalues]; rfl
  have hfalse {req : HttpRequest}
      (h : req.headers = upgradeRequest.raw.headers.foldl insertHeader ∅) :
      ¬ req.isKeepAlive = true :=
    (isKeepAlive_iff_of_last h hlast).not.mpr (by decide)
  have hpersists : Persists (connectionValues upgradeRequest.raw) 1 := by
    refine ⟨?_, Or.inl (Nat.le_refl 1)⟩
    rw [hvalues]
    unfold Lists
    decide
  exact ⟨_, hparse, Bool.eq_false_iff.mpr (hfalse rfl), hpersists,
    fun h => hfalse rfl (h.mpr hpersists)⟩

end KernelEngine.KeepAlive
