import KernelEngine.Http.Query

namespace KernelEngine.Parameters
open Rust Http Percent Urlencoding Assoc

/-- A pair as a query has it: both parts encoded, with an equals sign between them. -/
def Written (e : Str × Str) (w : Str) : Prop :=
  ∃ k v, FormEncodes Char.isAlphanum e.1 k ∧ FormEncodes Char.isAlphanum e.2 v ∧
    w = k ++ '=' :: v

section Pairs

variable {s w : Str} {e : Str × Str} {l : List (Str × Str)} {es : List Str}

theorem decode_alphanum (hs : ∀ c ∈ s, c.toNat < 128) (h : FormEncodes Char.isAlphanum s w) :
    decodeOrDefault w = s := by
  have hkeep : ∀ c : Char, c.isAlphanum = true → c ≠ '%' ∧ c ≠ '+' ∧ c.toNat < 128 := by
    intro c hc
    refine ⟨?_, ?_, isAlphanum_lt hc⟩
    · rintro rfl
      exact absurd hc (by decide)
    · rintro rfl
      exact absurd hc (by decide)
  rw [decodeOrDefault, decode_formEncodes hkeep h, latin1_bytes_eq_self_iff.mpr hs]
  rfl

/-- No delimiter is left in an encoding. -/
theorem not_mem_form {c : Char} (h : FormEncodes Char.isAlphanum s w) (hc : c.isAlphanum = false)
    (hplus : c ≠ '+') (hpercent : c ≠ '%') : c ∉ w := by
  intro hmem
  have hno : c.isAlphanum ≠ true := Bool.eq_false_iff.mp hc
  obtain h | h | h | h := h.mem hmem
  · exact hno h
  · exact hplus h
  · exact hpercent h
  · exact hno h

theorem not_mem_written {c : Char} (h : Written e w) (hc : c.isAlphanum = false)
    (hplus : c ≠ '+') (hpercent : c ≠ '%') (heq : c ≠ '=') : c ∉ w := by
  obtain ⟨k, v, hk, hv, rfl⟩ := h
  rw [List.mem_append, List.mem_cons]
  rintro (hmem | hmem | hmem)
  · exact not_mem_form hk hc hplus hpercent hmem
  · exact heq hmem
  · exact not_mem_form hv hc hplus hpercent hmem

/-- The parts of a written pair are the ones it was written from. -/
theorem splitFirst_written (hascii : ∀ c ∈ e.1 ++ e.2, c.toNat < 128) (h : Written e w) :
    ∃ x, splitFirst '=' w = some x ∧ (pairKey x, pairValue x) = e := by
  obtain ⟨k, v, hk, hv, rfl⟩ := h
  refine ⟨(k, v), splitFirst_append (not_mem_form hk (by decide) (by decide) (by decide)), ?_⟩
  have hkey := decode_alphanum (fun c hc => hascii c (List.mem_append_left _ hc)) hk
  have hvalue := decode_alphanum (fun c hc => hascii c (List.mem_append_right _ hc)) hv
  exact Prod.ext hkey hvalue

theorem ampersand_not_mem (h : List.Forall₂ Written l es) : ∀ w ∈ es, '&' ∉ w := by
  induction h with
  | nil => simp
  | cons he h ih =>
    refine List.forall_mem_cons.mpr ⟨?_, ih⟩
    exact not_mem_written he (by decide) (by decide) (by decide) (by decide)

theorem map_written (hascii : ∀ e ∈ l, ∀ c ∈ e.1 ++ e.2, c.toNat < 128)
    (h : List.Forall₂ Written l es) :
    (es.filterMap (splitFirst '=')).map (fun x => (pairKey x, pairValue x)) = l := by
  induction h with
  | nil => rfl
  | @cons e w l es he h ih =>
    obtain ⟨x, hx, heq⟩ := splitFirst_written (hascii e List.mem_cons_self) he
    rw [List.filterMap_cons_some hx, List.map_cons, heq,
      ih fun d hd => hascii d (List.mem_cons_of_mem _ hd)]

end Pairs

/-- Pairs of ASCII texts written into a query are what is read from it, whatever their
order and whatever delimiters they have in them. -/
theorem query_round_trip {r : HttpRequest} {p : Str} {l : List (Str × Str)} {es : List Str}
    (hp : '?' ∉ p) (hascii : ∀ e ∈ l, ∀ c ∈ e.1 ++ e.2, c.toNat < 128)
    (hkeys : (l.map Prod.fst).Nodup) (hes : List.Forall₂ Written l es)
    (hpath : r.path = p ++ '?' :: ['&'].intercalate es) :
    (∀ k v, r.queryParams.lookup k = some v ↔ (k, v) ∈ l) ∧ r.cleanPath = p := by
  have hpairs : pairs r.path = es.filterMap (splitFirst '=') := by
    rw [hpath, pairs_intercalate hp (ampersand_not_mem hes)]
  have hmap := map_written hascii hes
  rw [← hpairs] at hmap
  constructor
  · intro k v
    have hnodup : ((pairs r.path).map pairKey).Nodup := by
      rw [← hmap, List.map_map] at hkeys
      exact hkeys
    rw [lookup_queryParams, map_last_eq_some_iff_mem hnodup, hmap]
  · have hsplit : splitFirst '?' r.path = some (p, ['&'].intercalate es) := by
      rw [hpath, splitFirst_append hp]
    exact (splitFirst_some hsplit).1

theorem ascii_of_all {l : List (Str × Str)}
    (h : (l.all fun e => (e.1 ++ e.2).all (·.toNat < 128)) = true) :
    ∀ e ∈ l, ∀ c ∈ e.1 ++ e.2, c.toNat < 128 := by
  intro e he c hc
  exact of_decide_eq_true (List.all_eq_true.mp (List.all_eq_true.mp h e he) c hc)

/-- A key of delimiters, an empty key and an empty value. -/
theorem delimiters_round_trip :
    let r : HttpRequest := ⟨"GET".toList, "/q?%26%3D=a+%2B&=%3F&x=".toList, 1, ∅, []⟩
    (∀ k v, r.queryParams.lookup k = some v ↔ (k, v) ∈
      [("&=".toList, "a +".toList), ([], "?".toList), ("x".toList, [])]) ∧
        r.cleanPath = "/q".toList := by
  have hfirst : Written ("&=".toList, "a +".toList) "%26%3D=a+%2B".toList :=
    ⟨"%26%3D".toList, "a+%2B".toList, formEncodes_encode Char.isAlphanum "&=".toList,
      .kept (by decide) (.plus (formEncodes_encode Char.isAlphanum "+".toList)), rfl⟩
  have hsecond : Written ([], "?".toList) "=%3F".toList :=
    ⟨[], "%3F".toList, .nil, formEncodes_encode Char.isAlphanum "?".toList, rfl⟩
  have hthird : Written ("x".toList, []) "x=".toList :=
    ⟨"x".toList, [], formEncodes_encode Char.isAlphanum "x".toList, .nil, rfl⟩
  exact query_round_trip (by decide) (ascii_of_all (by decide)) (by decide)
    (.cons hfirst (.cons hsecond (.cons hthird .nil))) (by decide)

/-- Malformed pairs have no effect exactly when each that is the last with its key,
text that is not decoded being empty, stands behind a well-formed pair with this key and the
same value. -/
theorem malformed_inert_iff (r : HttpRequest) :
    (∀ k, r.queryParams.lookup k =
        { r with path := withoutMalformed r.path }.queryParams.lookup k) ↔
      ∀ pre m post, pairs r.path = pre ++ m :: post → decodable m = false →
        (∀ e ∈ post, pairKey e ≠ pairKey m) →
        ∃ e, last pairKey (pairKey m) (pre.filter decodable) = some e ∧
          pairValue e = pairValue m := by
  simp only [lookup_queryParams, pairs_withoutMalformed, map_last_filter_iff]
  have hdrop {pre post : List (Str × Str)} {m : Str × Str}
      (h : pairs r.path = pre ++ m :: post) (hm : decodable m = false)
      (hpost : ∀ e ∈ post, pairKey e ≠ pairKey m) :
      last pairKey (pairKey m) ((pairs r.path).filter decodable) =
        last pairKey (pairKey m) (pre.filter decodable) := by
    have hnone : last pairKey (pairKey m) (post.filter decodable) = none :=
      last_eq_none_iff.mpr fun e he => hpost e (List.mem_of_mem_filter he)
    rw [h, List.filter_append, List.filter_cons_of_neg (by simp [hm]), last_append, hnone,
      Option.none_or]
  constructor
  · intro h pre m post hpairs hm hpost
    have hlast := last_eq_some_iff.mpr ⟨rfl, pre, post, hpairs, hpost⟩
    have hvalue := h (pairKey m) m hlast hm
    rw [hdrop hpairs hm hpost] at hvalue
    exact Option.map_eq_some_iff.mp hvalue
  · intro h k m hlast hm
    obtain ⟨rfl, pre, post, hpairs, hpost⟩ := last_eq_some_iff.mp hlast
    rw [hdrop hpairs hm hpost]
    exact Option.map_eq_some_iff.mpr (h pre m post hpairs hm hpost)

theorem malformed_overwrites :
    let r : HttpRequest := ⟨"GET".toList, "/p?a=1&a=%zz".toList, 1, ∅, []⟩
    r.queryParams.lookup "a".toList = some [] ∧
      withoutMalformed r.path = "/p?a=1".toList ∧
      ¬ ∀ k, r.queryParams.lookup k =
        { r with path := withoutMalformed r.path }.queryParams.lookup k := by
  have hpath : withoutMalformed "/p?a=1&a=%zz".toList = "/p?a=1".toList := by decide +kernel
  have hbefore : pairs "/p?a=1&a=%zz".toList =
      [("a".toList, "1".toList), ("a".toList, "%zz".toList)] := by decide +kernel
  have hafter : pairs "/p?a=1".toList = [("a".toList, "1".toList)] := by decide +kernel
  dsimp only
  refine ⟨?_, hpath, fun h => ?_⟩
  · rw [lookup_queryParams, hbefore]
    decide
  · have ha := h "a".toList
    rw [hpath, lookup_queryParams, lookup_queryParams, hbefore, hafter] at ha
    exact absurd ha (by decide)

end KernelEngine.Parameters
