import KernelEngine.Http.Calls

namespace KernelEngine.Headers
open Rust Http Assoc

/-- The fields of an emitted header section have different names, whatever their case, and
one of them gives the length of the body. -/
structure WellFormed (fields : List (Str × Str)) (body : Bytes) : Prop where
  distinct : fields.Pairwise fun h h' => ¬ SameName h.1 h'.1
  length : (fields.filter fun h => SameName h.1 "Content-Length".toList).map Prod.snd =
    [decimal body.length]

/-- A reader of the bytes finds, behind the status line, a header section that is in order for
the bytes behind it. -/
def SendsWellFormed (bytes : Bytes) : Prop :=
  ∃ fields body, (Wire.status.bind fun _ => Wire.headers) bytes = some (fields, body) ∧
    WellFormed fields body

/-- The names under which a chain of calls writes headers. -/
def names (chain : List Link) : List Str :=
  "Connection".toList :: "Server".toList :: (chain.flatMap Link.writes).map Prod.fst

/-- No name is written in two spellings. -/
def Spelled (chain : List Link) : Prop :=
  ∀ a ∈ names chain, ∀ b ∈ names chain, SameName a b → a = b

/-- The header given by hand, if any, fits on its line. -/
def GivesLine (c : Link) : Prop := ∀ h, c.given = some h → FitsLine h

/-- The header given by hand, if any, is not the length. -/
def LeavesLength (c : Link) : Prop :=
  ∀ h, c.given = some h → ¬ SameName h.1 "Content-Length".toList

instance (fields : List (Str × Str)) (body : Bytes) : Decidable (WellFormed fields body) :=
  decidable_of_iff (_ ∧ _) ⟨fun h => ⟨h.1, h.2⟩, fun h => ⟨h.distinct, h.length⟩⟩

/-- What later calls leave of a header: they may only set the content type, and to the same. -/
def Kept (name value : Str) (later : List Link) : Prop :=
  name = "Content-Type".toList →
    ∀ t, (later.filterMap Link.contentType).getLast? = some t → t = value

section Sections

variable {code : ℕ} {chain : List Link} {c : Link} {r : HttpResponse} {order : List (Str × Str)}
  {k : Str}

theorem mem_headers_iff : k ∈ (construct code chain).headers ↔ k ∈ names chain := by
  rw [headers_construct, mem_fill, mem_new_headers, names, List.mem_cons, List.mem_cons,
    List.mem_map, or_assoc]

theorem mem_map_order (h : order.Perm r.fields) : k ∈ order.map Prod.fst ↔ k ∈ r.headers := by
  rw [← AList.lookup_isSome, Option.isSome_iff_exists]
  constructor
  · intro hk
    obtain ⟨⟨name, value⟩, hmem, rfl⟩ := List.mem_map.mp hk
    exact ⟨value, (Wire.mem_order h).mp hmem⟩
  · rintro ⟨value, hvalue⟩
    exact List.mem_map.mpr ⟨(k, value), (Wire.mem_order h).mpr hvalue, rfl⟩

theorem nodup_names (h : order.Perm r.fields) : (order.map Prod.fst).Nodup := by
  have hkeys : (r.fields.map Prod.fst).Nodup := by
    rw [HttpResponse.fields, List.map_map]
    exact r.headers.keys_nodup
  exact (h.map Prod.fst).nodup_iff.mpr hkeys

theorem distinct_iff (h : order.Perm (construct code chain).fields) :
    (order.Pairwise fun h h' => ¬ SameName h.1 h'.1) ↔ Spelled chain := by
  have hmem (k : Str) : k ∈ order.map Prod.fst ↔ k ∈ names chain :=
    (mem_map_order h).trans mem_headers_iff
  rw [← List.pairwise_map (f := Prod.fst) (R := fun a b => ¬ SameName a b)]
  constructor
  · intro hdistinct a ha b hb hsame
    by_contra hne
    have hsymm : Std.Symm fun a b : Str => ¬ SameName a b := ⟨fun _ _ hn hs => hn hs.symm⟩
    exact hdistinct.forall ((hmem a).mpr ha) ((hmem b).mpr hb) hne hsame
  · intro hspelled
    refine (nodup_names h).pairwise_of_forall_ne fun a ha b hb hne hsame => ?_
    exact hne (hspelled a ((hmem a).mp ha) b ((hmem b).mp hb) hsame)

theorem LeavesLength.sparesLength {b : Build} (h : LeavesLength (.done b)) : b.SparesLength := by
  cases b with
  | setBody | html | text | json => trivial
  | withHeader name value =>
    rintro rfl
    exact h _ rfl rfl

/-- A body setter anywhere in the chain gives the response its length for good. -/
theorem measured_construct (hchain : ∀ c ∈ chain, LeavesLength c)
    (hbody : ∃ c ∈ chain, c.body.isSome) : Measured (construct code chain) := by
  rw [construct_eq_build]
  apply measured_build
  · intro b hb
    exact (hchain _ (mem_builds.mp hb)).sparesLength
  · obtain ⟨c, hc, hsets⟩ := hbody
    cases c with
    | jsonFailed => cases hsets
    | done b => exact ⟨b, mem_builds.mpr hc, b.setsBody_eq.trans hsets⟩

theorem sameName_of_isContentLength {name : Str} (h : IsContentLength name) :
    SameName name "Content-Length".toList := by
  have hlower : name.map Char.toLower = toLowercase name := by
    refine List.map_congr_left fun c hc => (if_neg fun hkelvin => ?_).symm
    -- the Kelvin sign would leave a letter that is not in the name
    have hmem : 'k' ∈ toLowercase name := List.mem_map.mpr ⟨c, hc, if_pos hkelvin⟩
    rw [h] at hmem
    exact absurd hmem (by decide)
  rw [SameName, hlower, h]
  decide

/-- Where the headers given by hand fit on their lines, the fields are what a reader finds in
the bytes of the section. -/
theorem reads_section (hchain : ∀ c ∈ chain, LeavesLength c) (hfits : ∀ c ∈ chain, GivesLine c)
    (h : order.Perm (construct code chain).fields) :
    Codec.Reads Wire.headers
      (order.flatMap HttpResponse.headerLine ++ Str.bytes "\r\n".toList) order := by
  have hallowed : ∀ b ∈ chain.filterMap Link.build?, b.Allowed := by
    intro b hb
    have hc := mem_builds.mp hb
    cases b with
    | setBody | html | text | json => trivial
    | withHeader name value =>
      exact ⟨hfits _ hc _ rfl, fun hlength =>
        hchain _ hc _ rfl (sameName_of_isContentLength hlength)⟩
  have hsound := sound_build code hallowed
  rw [← construct_eq_build] at hsound
  exact Wire.reads_headers fun field hfield =>
    (hsound.headers _ _ ((Wire.mem_order h).mp hfield)).1

theorem construct_status (code : ℕ) (chain : List Link) :
    (construct code chain).statusText = statusTextForCode (construct code chain).statusCode := by
  induction chain using List.reverseRecOn with
  | nil => rfl
  | append_singleton chain c ih =>
    rw [construct, List.foldl_append]
    change (c.apply (construct code chain)).statusText = _
    cases c with
    | jsonFailed => exact ih
    | done b => cases b <;> exact ih

/-- Whatever fields a reader finds in the bytes of the section are judged by the body. -/
theorem sendsWellFormed_iff {fields : List (Str × Str)} (hread : Codec.Reads Wire.headers
      (order.flatMap HttpResponse.headerLine ++ Str.bytes "\r\n".toList) fields) :
    SendsWellFormed ((construct code chain).toBytes order) ↔
      WellFormed fields (construct code chain).body := by
  have hstatus : Codec.Reads Wire.status (construct code chain).statusLine _ :=
    Wire.reads_status (construct_status code chain ▸ Wire.cr_not_mem_statusTextForCode _)
  have hhead := hstatus.bind (f := fun _ => Wire.headers) hread (construct code chain).body
  rw [← List.append_assoc] at hhead
  constructor
  · rintro ⟨fields', body, hfound, hformed⟩
    obtain ⟨rfl, rfl⟩ := Prod.mk.inj (Option.some.inj (hhead.symm.trans hfound))
    exact hformed
  · exact fun hformed => ⟨_, _, hhead, hformed⟩

/-- Where a length is written under any name, a body was set. -/
theorem body_of_length (hchain : ∀ c ∈ chain, LeavesLength c) (hk : k ∈ names chain)
    (hlength : SameName k "Content-Length".toList) : ∃ c ∈ chain, c.body.isSome := by
  have hconnection : ¬ SameName "Connection".toList "Content-Length".toList := by decide
  have hserver : ¬ SameName "Server".toList "Content-Length".toList := by decide
  have htype : ¬ SameName "Content-Type".toList "Content-Length".toList := by decide
  simp only [names, List.mem_cons, List.mem_map, List.mem_flatMap] at hk
  obtain rfl | rfl | ⟨h, ⟨c, hc, hh⟩, rfl⟩ := hk
  · exact (hconnection hlength).elim
  · exact (hserver hlength).elim
  · refine ⟨c, hc, ?_⟩
    obtain hgiven | hcontent | hbody := mem_writes.mp hh
    · exact (hchain c hc h hgiven hlength).elim
    · obtain ⟨t, -, rfl⟩ := Option.map_eq_some_iff.mp hcontent
      exact (htype hlength).elim
    · obtain ⟨body, hb, -⟩ := Option.map_eq_some_iff.mp hbody
      rw [hb]
      rfl

/-- Of fields with different names one at most has a given name. -/
theorem filter_distinct {fields : List (Str × Str)} {h : Str × Str}
    (hdistinct : fields.Pairwise fun h h' => ¬ SameName h.1 h'.1) (hmem : h ∈ fields)
    (hk : SameName h.1 k) : fields.filter (fun h' => SameName h'.1 k) = [h] := by
  obtain ⟨pre, post, rfl⟩ := List.append_of_mem hmem
  obtain ⟨-, hpost, hpre⟩ := List.pairwise_append.mp hdistinct
  have hbefore : pre.filter (fun h' => SameName h'.1 k) = [] := by
    refine List.filter_eq_nil_iff.mpr fun h' hh' hsame => ?_
    exact hpre h' hh' h List.mem_cons_self ((of_decide_eq_true hsame).trans hk.symm)
  have hafter : post.filter (fun h' => SameName h'.1 k) = [] := by
    refine List.filter_eq_nil_iff.mpr fun h' hh' hsame => ?_
    exact (List.pairwise_cons.mp hpost).1 h' hh' (hk.trans (of_decide_eq_true hsame).symm)
  have hself : (h :: post).filter (fun h' => SameName h'.1 k) = [h] := by
    rw [List.filter_cons_of_pos (by simpa using hk), hafter]
  rw [List.filter_append, hbefore, hself, List.nil_append]

theorem wellFormed_fields_iff (hchain : ∀ c ∈ chain, LeavesLength c)
    (h : order.Perm (construct code chain).fields) :
    WellFormed order (construct code chain).body ↔
      (∃ c ∈ chain, c.body.isSome) ∧ Spelled chain := by
  constructor
  · intro hsound
    refine ⟨?_, (distinct_iff h).mp hsound.distinct⟩
    have hvalue : decimal (construct code chain).body.length ∈
        (order.filter fun h => SameName h.1 "Content-Length".toList).map Prod.snd := by
      rw [hsound.length]
      exact List.mem_singleton_self _
    obtain ⟨field, hfield, -⟩ := List.mem_map.mp hvalue
    obtain ⟨hmem, hlength⟩ := List.mem_filter.mp hfield
    have hname := (mem_map_order h).mp (List.mem_map_of_mem hmem)
    exact body_of_length hchain (mem_headers_iff.mp hname) (of_decide_eq_true hlength)
  · rintro ⟨hbody, hspelled⟩
    have hdistinct := (distinct_iff h).mpr hspelled
    have hlength := (Wire.mem_order h).mpr (measured_construct hchain hbody)
    have hone := filter_distinct (k := "Content-Length".toList) hdistinct hlength rfl
    exact ⟨hdistinct, congrArg (List.map Prod.snd) hone⟩

/-- What is sent of a response made by calls that leave the length to the builder, with headers
that fit on their lines, is in order exactly when one of the calls sets a body and no name is
written in two spellings. -/
theorem wellFormed_iff (code : ℕ) (chain : List Link) (hchain : ∀ c ∈ chain, LeavesLength c)
    (hfits : ∀ c ∈ chain, GivesLine c) (order : List (Str × Str))
    (h : order.Perm (construct code chain).fields) :
    SendsWellFormed ((construct code chain).toBytes order) ↔
      (∃ c ∈ chain, c.body.isSome) ∧ Spelled chain :=
  (sendsWellFormed_iff (reads_section hchain hfits h)).trans (wellFormed_fields_iff hchain h)

def identified : List Link :=
  [.done (.withHeader "X-Id".toList "7".toList), .done (.text "ok".toList)]

/-- What holds of the headers given by hand. -/
theorem forall_given {P : Str × Str → Prop} (h : ∀ x ∈ chain.filterMap Link.given, P x) :
    ∀ c ∈ chain, ∀ x, c.given = some x → P x :=
  fun c hc x hx => h x (List.mem_filterMap.mpr ⟨c, hc, hx⟩)

theorem text_chain_wellFormed :
    SendsWellFormed ((construct 200 identified).toBytes (construct 200 identified).fields) := by
  refine (wellFormed_iff 200 identified (forall_given (by decide)) (forall_given (by decide)) _
    (.refl _)).mpr ⟨⟨.done (.text "ok".toList), by simp [identified], rfl⟩, ?_⟩
  unfold Spelled
  decide +kernel

/-- The name of a set header in another case. -/
def respelled : List Link :=
  [.done (.withHeader "content-type".toList "text/csv".toList), .done (.text "a,b".toList)]

/-- A value that brings a line of its own. -/
def injected : List Link :=
  [.done (.withHeader "X-A".toList "v\r\nContent-Length: 99".toList), .done (.text "ok".toList)]

/-- What a reader finds in that. -/
def injectedFields : List (Str × Str) :=
  (construct 200 injected).fields.flatMap fun h =>
    if h.1 = "X-A".toList then [("X-A".toList, "v".toList), ("Content-Length".toList, "99".toList)]
    else [h]

theorem sends_fields_iff
    (hleaves : ∀ x ∈ chain.filterMap Link.given, ¬ SameName x.1 "Content-Length".toList)
    (hfits : ∀ x ∈ chain.filterMap Link.given, FitsLine x) :
    SendsWellFormed ((construct code chain).toBytes (construct code chain).fields) ↔
      WellFormed (construct code chain).fields (construct code chain).body :=
  sendsWellFormed_iff (reads_section (forall_given hleaves) (forall_given hfits) (.refl _))

/-- Without a body setter, with data that cannot be serialised, with the name of a set header
in another case, and with a value that does not fit on its line. -/
theorem sections_out_of_order :
    ¬ SendsWellFormed ((construct 204 []).toBytes (construct 204 []).fields) ∧
    ¬ SendsWellFormed ((construct 200 [.jsonFailed]).toBytes (construct 200 [.jsonFailed]).fields) ∧
    ¬ SendsWellFormed ((construct 200 respelled).toBytes (construct 200 respelled).fields) ∧
    ¬ SendsWellFormed ((construct 200 injected).toBytes (construct 200 injected).fields) := by
  refine ⟨(sends_fields_iff (by decide) (by decide)).not.mpr (by decide +kernel),
    (sends_fields_iff (by decide) (by decide)).not.mpr (by decide +kernel),
    (sends_fields_iff (by decide) (by decide)).not.mpr (by decide +kernel), ?_⟩
  have hlines : (construct 200 injected).fields.flatMap HttpResponse.headerLine =
      injectedFields.flatMap HttpResponse.headerLine := by decide +kernel
  have hread : Codec.Reads Wire.headers (injectedFields.flatMap HttpResponse.headerLine ++
      Str.bytes "\r\n".toList) injectedFields := Wire.reads_headers (by decide +kernel)
  rw [← hlines] at hread
  rw [sendsWellFormed_iff hread]
  decide +kernel

end Sections

section Overrides

variable {name value : Str} {c : Link} {post : List Link} {r : HttpResponse}

end Overrides

end KernelEngine.Headers
