import KernelEngine.Http.Request

namespace KernelEngine.Http
open Rust

/-- What the crate documents of a head it has read to the end: it reads the same wherever all
of the head is there and its fields have slots, and finds it complete nowhere else. -/
structure Repeatable (hp : Httparse) : Prop where
  again : ∀ {slots slots' m n : ℕ} {buf : Bytes} {raw : RawRequest},
    hp slots buf = .ok (.complete n, raw) → n ≤ m → raw.headers.length ≤ slots' →
    hp slots' (buf.take m) = .ok (.complete n, raw)
  needed : ∀ {slots slots' m n n' : ℕ} {buf : Bytes} {raw raw' : RawRequest},
    hp slots buf = .ok (.complete n, raw) → hp slots' (buf.take m) = .ok (.complete n', raw') →
    n ≤ m ∧ raw.headers.length ≤ slots'

namespace HttpRequest

/-- A buffer that parses has a complete head. -/
theorem complete_of_parse {httparse : Httparse} {buf : Bytes} {req : HttpRequest}
    (h : parse httparse buf = .ok req) :
    ∃ n raw, httparse 64 buf = .ok (.complete n, raw) ∧ raw.path = some req.path := by
  obtain ⟨⟨status, raw⟩, hraw, h⟩ := bind_eq_ok.mp h
  rw [mapError_eq_ok] at hraw
  cases status with
  | incomplete => cases h
  | complete n =>
    obtain ⟨method, -, h⟩ := bind_eq_ok.mp h
    obtain ⟨path, hpath, h⟩ := bind_eq_ok.mp h
    obtain ⟨version, -, h⟩ := bind_eq_ok.mp h
    obtain rfl := Except.ok.inj h
    refine ⟨n, raw, hraw, ?_⟩
    cases hp : raw.path with
    | none =>
      rw [hp] at hpath
      cases hpath
    | some p =>
      rw [hp] at hpath
      exact congrArg some (Except.ok.inj hpath)

end HttpRequest

namespace Scan

variable {α β : Type} {scan : Bytes → Scan α} {buf rest : Bytes}

/-- The scanner takes these bytes, whatever comes behind them. -/
def Takes (scan : Bytes → Scan α) (w : Bytes) (a : α) : Prop :=
  ∀ rest, scan (w ++ rest) = .done a rest

/-- A scanner that is done has looked at nothing behind the bytes it has taken. -/
def Local (scan : Bytes → Scan α) : Prop :=
  ∀ buf a rest, scan buf = .done a rest → ∃ w, buf = w ++ rest ∧ Takes scan w a

theorem andThen_eq_done {x : Scan α} {f : α → Bytes → Scan β} {b : β} :
    x.andThen f = .done b rest ↔ ∃ a rest', x = .done a rest' ∧ f a rest' = .done b rest := by
  cases x <;> simp [andThen]

theorem Local.andThen {f : α → Bytes → Scan β} (hscan : Local scan) (hf : ∀ a, Local (f a)) :
    Local fun buf => (scan buf).andThen f := by
  intro buf b rest h
  obtain ⟨a, mid, ha, hb⟩ := andThen_eq_done.mp h
  obtain ⟨w, rfl, hw⟩ := hscan buf a mid ha
  obtain ⟨w', rfl, hw'⟩ := hf a mid b rest hb
  refine ⟨w ++ w', (List.append_assoc ..).symm, fun rest' => ?_⟩
  rw [List.append_assoc]
  exact andThen_eq_done.mpr ⟨a, w' ++ rest', hw _, hw' rest'⟩

/-- A word is done where its first byte of another kind is the one it stops at. -/
theorem of_word_done {p : UInt8 → Bool} {stop : UInt8} {e : HttparseError} {a : Bytes}
    (h : word p stop e buf = .done a rest) :
    buf = a ++ stop :: rest ∧ a ≠ [] ∧ (∀ b ∈ a, p b = true) ∧ p stop = false := by
  rw [word, List.span_eq_takeWhile_dropWhile] at h
  have hsplit := buf.takeWhile_append_dropWhile (p := p)
  cases hdrop : buf.dropWhile p with
  | nil =>
    rw [hdrop] at h
    cases h
  | cons b tail =>
    rw [hdrop] at h hsplit
    dsimp only at h
    split_ifs at h with hstop
    obtain ⟨rfl, rfl⟩ := Scan.done.inj h
    obtain ⟨rfl, hne⟩ := hstop
    refine ⟨hsplit.symm, hne, fun c hc => List.mem_takeWhile_imp hc, ?_⟩
    have hhead := List.head?_dropWhile_not p buf
    rw [hdrop] at hhead
    simpa using hhead

theorem local_word (p : UInt8 → Bool) (stop : UInt8) (e : HttparseError) :
    Local (word p stop e) := by
  intro buf a rest h
  obtain ⟨rfl, hne, hall, hstop⟩ := of_word_done h
  refine ⟨a ++ [stop], by simp, fun rest' => ?_⟩
  rw [List.append_assoc]
  exact word_append e rest' hall hne hstop

theorem local_literal (e : HttparseError) (w : Bytes) : Local (literal e w) := by
  intro buf a rest h
  refine ⟨w, ?_, fun rest' => literal_append e w rest'⟩
  induction w generalizing buf with
  | nil =>
    obtain ⟨-, rfl⟩ := Scan.done.inj h
    rfl
  | cons x w ih =>
    cases buf with
    | nil => cases h
    | cons b buf =>
      rw [literal] at h
      split_ifs at h with hb
      rw [ih buf h, hb]
      rfl

theorem local_newline : Local newline := by
  intro buf a rest h
  unfold newline at h
  split at h
  case h_1 =>
    obtain ⟨-, rfl⟩ := Scan.done.inj h
    exact ⟨[13, 10], rfl, fun _ => rfl⟩
  case h_2 =>
    obtain ⟨-, rfl⟩ := Scan.done.inj h
    exact ⟨[10], rfl, fun _ => rfl⟩
  all_goals cases h

/-- Whether a line ends here shows in two bytes. -/
theorem newline_bad_congr {b c : UInt8} {e : HttparseError} (h : newline (b :: c :: buf) = .bad e)
    (rest : Bytes) : newline (b :: c :: rest) = .bad e := by
  unfold newline at h ⊢
  split at h <;> split <;> simp_all

theorem local_minor : Local minor := by
  intro buf a rest h
  cases buf with
  | nil => cases h
  | cons b buf =>
    rw [minor] at h
    split_ifs at h with h0 h1 <;> obtain ⟨rfl, rfl⟩ := Scan.done.inj h
    · subst h0
      exact ⟨[0x30], rfl, fun _ => rfl⟩
    · subst h1
      exact ⟨[0x31], rfl, fun _ => rfl⟩

theorem local_value : Local value := by
  intro buf a rest h
  rw [value, List.span_eq_takeWhile_dropWhile] at h
  have hsplit := buf.takeWhile_append_dropWhile (p := isValueByte)
  have hhead := List.head?_dropWhile_not isValueByte buf
  cases hdrop : buf.dropWhile isValueByte with
  | nil =>
    rw [hdrop] at h
    cases h
  | cons b tail =>
    rw [hdrop] at h hsplit hhead
    obtain ⟨⟨⟩, mid, hnew, hdone⟩ := andThen_eq_done.mp h
    obtain ⟨rfl, rfl⟩ := Scan.done.inj hdone
    obtain ⟨w, hw, htakes⟩ := local_newline _ _ _ hnew
    refine ⟨buf.takeWhile isValueByte ++ w, ?_, fun rest' => ?_⟩
    · rw [List.append_assoc, ← hw, hsplit]
    · cases w with
      | nil => cases (htakes []).symm.trans rfl
      | cons b' w =>
        obtain ⟨rfl, -⟩ := List.cons.inj hw
        have hspan : (buf.takeWhile isValueByte ++ b :: w ++ rest').span isValueByte =
            (buf.takeWhile isValueByte, b :: (w ++ rest')) := by
          rw [List.append_assoc]
          exact span_append (fun c hc => List.mem_takeWhile_imp hc) (by simpa using hhead)
        rw [value, hspan]
        exact andThen_eq_done.mpr ⟨(), rest', htakes rest', rfl⟩

theorem fields_of_newline {slots : ℕ} (h : newline buf = .done () rest) :
    fields slots buf = .done [] rest := by
  cases slots <;> rw [fields, h]

theorem fields_of_bad (slots : ℕ) {e : HttparseError} (h : newline buf = .bad e) :
    fields (slots + 1) buf = (word isToken 58 .headerName buf).andThen fun name rest =>
      (value rest).andThen fun v rest =>
      (fields slots rest).andThen fun hs rest => .done ((name, v) :: hs) rest := by
  rw [fields, h]

/-- The fields end at once, or there is a slot for another one. -/
theorem fields_done_cases {slots : ℕ} {hs : List (Bytes × Bytes)}
    (h : fields slots buf = .done hs rest) :
    newline buf = .done () rest ∧ hs = [] ∨ ∃ k e, slots = k + 1 ∧ newline buf = .bad e := by
  cases hnew : newline buf with
  | more => cases slots <;> rw [fields, hnew] at h <;> cases h
  | done u mid =>
    obtain ⟨rfl, rfl⟩ := Scan.done.inj ((fields_of_newline hnew).symm.trans h)
    exact Or.inl ⟨rfl, rfl⟩
  | bad e =>
    cases slots with
    | zero =>
      rw [fields, hnew] at h
      cases h
    | succ slots => exact Or.inr ⟨slots, e, rfl, rfl⟩

theorem local_fields (slots : ℕ) : Local (fields slots) := by
  induction slots with
  | zero =>
    intro buf hs rest h
    obtain ⟨hnew, rfl⟩ | ⟨k, e, hslots, -⟩ := fields_done_cases h
    · obtain ⟨w, rfl, hw⟩ := local_newline _ _ _ hnew
      exact ⟨w, rfl, fun rest' => fields_of_newline (hw rest')⟩
    · cases hslots
  | succ slots ih =>
    intro buf hs rest h
    obtain ⟨hnew, rfl⟩ | ⟨k, e, hslots, hnew⟩ := fields_done_cases h
    · obtain ⟨w, rfl, hw⟩ := local_newline _ _ _ hnew
      exact ⟨w, rfl, fun rest' => fields_of_newline (hw rest')⟩
    · have hlocal : Local fun buf => (word isToken 58 .headerName buf).andThen fun name rest =>
          (value rest).andThen fun v rest =>
          (fields slots rest).andThen fun hs rest => .done ((name, v) :: hs) rest := by
        refine (local_word _ _ _).andThen fun name => local_value.andThen fun v => ih.andThen ?_
        intro hs buf hs' rest hdone
        obtain ⟨rfl, rfl⟩ := Scan.done.inj hdone
        exact ⟨[], rfl, fun _ => rfl⟩
      rw [fields_of_bad slots hnew] at h
      obtain ⟨w, rfl, hw⟩ := hlocal buf hs rest h
      refine ⟨w, rfl, fun rest' => ?_⟩
      -- a name and its colon are two bytes of no line end
      obtain ⟨name, mid, hname, -⟩ := andThen_eq_done.mp (hw [])
      obtain ⟨hsplit, hne, -⟩ := of_word_done hname
      obtain ⟨b, name, rfl⟩ := List.exists_cons_of_ne_nil hne
      have htwo : ∃ c w', w = b :: c :: w' := by
        rw [List.append_nil] at hsplit
        cases name with
        | nil => exact ⟨_, _, hsplit⟩
        | cons c name => exact ⟨_, _, hsplit⟩
      obtain ⟨c, w', rfl⟩ := htwo
      have hnew' : newline (b :: c :: w' ++ rest') = .bad e := newline_bad_congr hnew (w' ++ rest')
      rw [fields_of_bad slots hnew']
      exact hw rest'

/-- The method behind the empty lines that are passed over. -/
theorem local_method : Local fun buf => word isToken 32 .token (skipEmptyLines buf) := by
  intro buf a rest h
  dsimp only at h
  fun_induction skipEmptyLines buf with
  | case1 tail ih =>
    obtain ⟨w, rfl, hw⟩ := ih h
    exact ⟨13 :: 10 :: w, rfl, hw⟩
  | case2 tail ih =>
    obtain ⟨w, rfl, hw⟩ := ih h
    exact ⟨10 :: w, rfl, hw⟩
  | case3 buf =>
    obtain ⟨rfl, hne, hall, hstop⟩ := of_word_done h
    refine ⟨a ++ [32], by simp, fun rest' => ?_⟩
    obtain ⟨b, a, rfl⟩ := List.exists_cons_of_ne_nil hne
    dsimp only
    rw [List.append_assoc, List.cons_append, skipEmptyLines_token (hall b List.mem_cons_self)]
    exact word_append .token rest' hall hne hstop

theorem local_requestHead (slots : ℕ) : Local (requestHead slots) := by
  refine local_method.andThen fun m => (local_word _ _ _).andThen fun u =>
    (local_literal _ _).andThen fun _ => local_minor.andThen fun v =>
    local_newline.andThen fun _ => (local_fields slots).andThen fun hs => ?_
  intro buf raw rest h
  dsimp only at h
  split_ifs at h with hutf8
  obtain ⟨rfl, rfl⟩ := Scan.done.inj h
  refine ⟨[], rfl, fun rest' => ?_⟩
  exact if_pos hutf8

/-- Fields that have their slots are read the same with others. -/
theorem fields_slots (slots' : ℕ) {slots : ℕ} {hs : List (Bytes × Bytes)}
    (h : fields slots buf = .done hs rest) :
    hs.length ≤ slots ∧ (hs.length ≤ slots' → fields slots' buf = .done hs rest) := by
  induction slots generalizing buf hs slots' with
  | zero =>
    obtain ⟨hnew, rfl⟩ | ⟨k, e, hslots, -⟩ := fields_done_cases h
    · exact ⟨le_rfl, fun _ => fields_of_newline hnew⟩
    · cases hslots
  | succ slots ih =>
    obtain ⟨hnew, rfl⟩ | ⟨k, e, hslots, hnew⟩ := fields_done_cases h
    · exact ⟨Nat.zero_le _, fun _ => fields_of_newline hnew⟩
    · rw [fields_of_bad slots hnew] at h
      obtain ⟨name, r1, hname, h⟩ := andThen_eq_done.mp h
      obtain ⟨v, r2, hv, h⟩ := andThen_eq_done.mp h
      obtain ⟨tail, r3, htail, h⟩ := andThen_eq_done.mp h
      obtain ⟨rfl, rfl⟩ := Scan.done.inj h
      refine ⟨Nat.succ_le_succ (ih slots htail).1, fun hlen => ?_⟩
      cases slots' with
      | zero => cases hlen
      | succ slots' =>
        have hrest := (ih slots' htail).2 (Nat.le_of_succ_le_succ hlen)
        rw [fields_of_bad slots' hnew]
        exact andThen_eq_done.mpr ⟨name, r1, hname, andThen_eq_done.mpr ⟨v, r2, hv,
          andThen_eq_done.mpr ⟨tail, r3, hrest, rfl⟩⟩⟩

theorem requestHead_slots (slots' : ℕ) {slots : ℕ} {raw : RawRequest}
    (h : requestHead slots buf = .done raw rest) : raw.headers.length ≤ slots ∧
      (raw.headers.length ≤ slots' → requestHead slots' buf = .done raw rest) := by
  unfold requestHead at h
  obtain ⟨m, r1, hm, h⟩ := andThen_eq_done.mp h
  obtain ⟨u, r2, hu, h⟩ := andThen_eq_done.mp h
  obtain ⟨⟨⟩, r3, hlit, h⟩ := andThen_eq_done.mp h
  obtain ⟨v, r4, hv, h⟩ := andThen_eq_done.mp h
  obtain ⟨⟨⟩, r5, hnew, h⟩ := andThen_eq_done.mp h
  obtain ⟨hs, r6, hfields, h⟩ := andThen_eq_done.mp h
  split_ifs at h with hutf8
  obtain ⟨rfl, rfl⟩ := Scan.done.inj h
  rw [List.length_map]
  refine ⟨(fields_slots slots hfields).1, fun hlen => ?_⟩
  rw [requestHead, hm, done_andThen, hu, done_andThen, hlit, done_andThen, hv, done_andThen, hnew,
    done_andThen, (fields_slots slots' hfields).2 hlen, done_andThen, if_pos hutf8]

end Scan

open Scan

/-- The head of a buffer the stand-in reads: so many bytes, behind which it has not looked. -/
theorem referenceHttparse_complete_iff {slots n : ℕ} {buf : Bytes} {raw : RawRequest} :
    referenceHttparse slots buf = .ok (.complete n, raw) ↔
      ∃ w rest, buf = w ++ rest ∧ w.length = n ∧ Takes (requestHead slots) w raw := by
  unfold referenceHttparse
  constructor
  · intro h
    cases hhead : requestHead slots buf with
    | more =>
      rw [hhead] at h
      cases h
    | bad e =>
      rw [hhead] at h
      cases h
    | done raw' rest =>
      rw [hhead] at h
      obtain ⟨hn, rfl⟩ := Prod.mk.inj (Except.ok.inj h)
      obtain ⟨w, rfl, hw⟩ := local_requestHead slots buf raw' rest hhead
      refine ⟨w, rest, rfl, ?_, hw⟩
      rw [← Status.complete.inj hn, List.length_append, Nat.add_sub_cancel]
  · rintro ⟨w, rest, rfl, rfl, hw⟩
    rw [hw rest]
    dsimp only
    rw [List.length_append, Nat.add_sub_cancel]

theorem referenceHttparse_repeatable : Repeatable referenceHttparse where
  again {slots slots' m n buf raw} h hm hlen := by
    obtain ⟨w, rest, rfl, rfl, hw⟩ := referenceHttparse_complete_iff.mp h
    have htake : (w ++ rest).take m = w ++ rest.take (m - w.length) := by
      rw [List.take_append, List.take_of_length_le hm]
    exact referenceHttparse_complete_iff.mpr ⟨w, _, htake, rfl, fun rest' =>
      (requestHead_slots _ (hw rest')).2 hlen⟩
  needed {slots slots' m n n' buf raw raw'} h h' := by
    obtain ⟨w, rest, rfl, rfl, hw⟩ := referenceHttparse_complete_iff.mp h
    obtain ⟨w', rest', htake, -, hw'⟩ := referenceHttparse_complete_iff.mp h'
    -- with slots enough for both the whole buffer is read in one way
    have hwhole : w ++ rest = w' ++ (rest' ++ (w ++ rest).drop m) := by
      rw [← List.append_assoc, ← htake, List.take_append_drop]
    have hfirst := hw rest
    have hsecond := hw' (rest' ++ (w ++ rest).drop m)
    rw [← hwhole] at hsecond
    obtain ⟨hle, hlift⟩ := requestHead_slots (max slots slots') hfirst
    obtain ⟨hle', hlift'⟩ := requestHead_slots (max slots slots') hsecond
    obtain ⟨rfl, hrest⟩ := Scan.done.inj ((hlift (hle.trans (le_max_left ..))).symm.trans
      (hlift' (hle'.trans (le_max_right ..))))
    refine ⟨?_, hle'⟩
    have hlen := congrArg List.length hrest
    rw [List.length_append, List.length_drop, List.length_append] at hlen
    omega

end KernelEngine.Http
