import KernelEngine.Http.Request
import KernelEngine.Http.Urlencoding
import KernelEngine.Lib.Assoc

namespace KernelEngine.Http
open Rust Assoc

/-- `find(c)` with the slices before and behind what it finds. -/
def splitFirst (c : Char) (s : Str) : Option (Str × Str) :=
  match s.dropWhile (· ≠ c) with
  | [] => none
  | _ :: rest => some (s.takeWhile (· ≠ c), rest)

namespace HttpRequest
open Urlencoding

/-- One turn of the loop over the pairs of a query. -/
def insertPair (params : HeaderMap) (pair : Str) : HeaderMap :=
  match splitFirst '=' pair with
  | none => params
  | some (key, value) => params.insert ((decode key).getD []) ((decode value).getD [])

/-- `HttpRequest::query_params`. -/
def queryParams (r : HttpRequest) : HeaderMap :=
  match splitFirst '?' r.path with
  | none => ∅
  | some (_, query) => (query.splitOn '&').foldl insertPair ∅

end HttpRequest

section Split

variable {c : Char} {s a b : Str}

theorem splitFirst_append (ha : c ∉ a) : splitFirst c (a ++ c :: b) = some (a, b) := by
  have hkeep : ∀ x ∈ a, decide (x ≠ c) = true := by
    intro x hx
    exact decide_eq_true fun heq => ha (heq ▸ hx)
  rw [splitFirst, List.dropWhile_append_of_pos hkeep, List.takeWhile_append_of_pos hkeep]
  simp

theorem splitFirst_some (h : splitFirst c s = some (a, b)) :
    s.takeWhile (· ≠ c) = a ∧ s.dropWhile (· ≠ c) = c :: b := by
  unfold splitFirst at h
  cases hdrop : s.dropWhile (· ≠ c) with
  | nil =>
    rw [hdrop] at h
    cases h
  | cons d rest =>
    have hd := List.head?_dropWhile_not (fun x => decide (x ≠ c)) s
    rw [hdrop] at h hd
    obtain ⟨ha, rfl⟩ := Prod.mk.inj (Option.some.inj h)
    obtain rfl : d = c := by simpa using hd
    exact ⟨ha, rfl⟩

theorem splitFirst_eq_some_iff : splitFirst c s = some (a, b) ↔ c ∉ a ∧ s = a ++ c :: b := by
  constructor
  · intro h
    obtain ⟨rfl, hdrop⟩ := splitFirst_some h
    refine ⟨fun hmem => ?_, ?_⟩
    · simpa using List.mem_takeWhile_imp hmem
    · rw [← hdrop, List.takeWhile_append_dropWhile]
  · rintro ⟨ha, rfl⟩
    exact splitFirst_append ha

/-- No piece of a split has the character in it that was split on. -/
theorem not_mem_of_mem_splitOn : ∀ w ∈ s.splitOn c, c ∉ w := by
  induction s with
  | nil => simp
  | cons d s ih =>
    rw [List.splitOn_cons_eq_if_modifyHead]
    split_ifs with hd
    · simpa using ih
    · have hd' : c ≠ d := fun heq => hd (beq_iff_eq.mpr heq.symm)
      cases hs : s.splitOn c with
      | nil => exact absurd hs (List.splitOn_ne_nil c s)
      | cons v vs =>
        rw [hs] at ih
        obtain ⟨hv, hvs⟩ := List.forall_mem_cons.mp ih
        refine List.forall_mem_cons.mpr ⟨?_, hvs⟩
        exact fun hmem => (List.mem_cons.mp hmem).elim hd' hv

end Split

namespace Urlencoding

/-- What a key or a value becomes in the map: text that is not decoded is empty. -/
def decodeOrDefault (s : Str) : Str := (decode s).getD []

/-- The pairs in the query of a path, as they are written. -/
def pairs (path : Str) : List (Str × Str) :=
  match splitFirst '?' path with
  | none => []
  | some (_, query) => (query.splitOn '&').filterMap (splitFirst '=')

def pairKey (e : Str × Str) : Str := decodeOrDefault e.1

def pairValue (e : Str × Str) : Str := decodeOrDefault e.2

theorem foldl_insertPair (m : HeaderMap) (l : List Str) :
    l.foldl HttpRequest.insertPair m = fill pairKey pairValue m (l.filterMap (splitFirst '=')) := by
  induction l generalizing m with
  | nil => rfl
  | cons s l ih =>
    rw [List.foldl_cons, ih, HttpRequest.insertPair]
    cases hs : splitFirst '=' s with
    | none => rw [List.filterMap_cons_none hs]
    | some e =>
      rw [List.filterMap_cons_some hs]
      rfl

theorem lookup_queryParams (r : HttpRequest) (k : Str) :
    r.queryParams.lookup k = (last pairKey k (pairs r.path)).map pairValue := by
  rw [HttpRequest.queryParams, pairs]
  cases splitFirst '?' r.path with
  | none => rfl
  | some q =>
    dsimp only
    rw [foldl_insertPair, lookup_fill_empty]

/-- Pieces without an ampersand are the ones that a query joined from them is split
into. -/
theorem pairs_intercalate {p : Str} {l : List Str} (hp : '?' ∉ p) (hl : ∀ s ∈ l, '&' ∉ s) :
    pairs (p ++ '?' :: ['&'].intercalate l) = l.filterMap (splitFirst '=') := by
  rw [pairs, splitFirst_append hp]
  dsimp only
  by_cases hne : l = []
  · rw [hne]
    rfl
  · rw [List.splitOn_intercalate _ hl hne]

/-- Both parts of a pair are decoded. -/
def decodable (e : Str × Str) : Bool := (decode e.1).isSome && (decode e.2).isSome

/-- The path without the pairs of its query that are not decoded. What is no pair stays. -/
def withoutMalformed (path : Str) : Str :=
  match splitFirst '?' path with
  | none => path
  | some (p, query) =>
    p ++ '?' :: ['&'].intercalate
      ((query.splitOn '&').filter fun s => (splitFirst '=' s).all decodable)

theorem filterMap_filter_all {ι κ : Type} (f : ι → Option κ) (p : κ → Bool) (l : List ι) :
    (l.filter fun i => (f i).all p).filterMap f = (l.filterMap f).filter p := by
  rw [List.filterMap_filter, List.filter_filterMap]
  apply List.filterMap_congr
  intro i _
  cases f i with
  | none => rfl
  | some k => cases hk : p k <;> simp [Option.filter, hk]

theorem pairs_withoutMalformed (path : Str) :
    pairs (withoutMalformed path) = (pairs path).filter decodable := by
  cases h : splitFirst '?' path with
  | none => simp [withoutMalformed, pairs, h]
  | some q =>
    have hq : '?' ∉ q.1 := (splitFirst_eq_some_iff.mp h).1
    have hpairs : pairs path = (q.2.splitOn '&').filterMap (splitFirst '=') := by
      rw [pairs, h]
    rw [hpairs, withoutMalformed, h]
    dsimp only
    rw [pairs_intercalate hq, filterMap_filter_all]
    exact fun s hs => not_mem_of_mem_splitOn s (List.mem_of_mem_filter hs)

end Urlencoding

end KernelEngine.Http
