import KernelEngine.Net.IoUring
import KernelEngine.Rust.Number

namespace KernelEngine.Encoding
open Rust File Net

/-- Where a transfer starts: at an offset, or wherever the file stands. -/
inductive Start where
  | current
  | at (offset : ℤ)
  deriving DecidableEq

/-- The offset of an entry, unless it is the marker of the current position. -/
def startOf (marker : Bool) (offset : ℤ) : Start := if marker then .current else .at offset

/-- What an entry asks the kernel to transfer. The marker is `-1` in the width of its field. -/
def coverage : Opcode → Option (Start × ℕ)
  | .read _ _ len offset | .write _ _ len offset =>
    some (startOf (offset == -1) offset.toNat, len.toNat)
  | .splice _ offIn _ _ len => some (startOf (offIn == -1) offIn.toInt, len.toNat)
  | .accept _ _ _ => none

/-- The offset and the length a call is given. -/
def range : Request → Option (UInt64 × UInt64)
  | .read _ _ len offset | .write _ _ len offset => some (offset, len)
  | .sendfile _ _ offset len => some (offset, len)
  | .accept _ _ _ => none

/-- The fields of the entry have room for the length and the offset, and the offset is no
marker. -/
def Representable : Request → Prop
  | .read _ _ len offset | .write _ _ len offset => len.toNat < 2 ^ 32 ∧ offset.toNat < 2 ^ 64 - 1
  | .sendfile _ _ offset len => len.toNat < 2 ^ 32 ∧ offset.toNat < 2 ^ 63
  | .accept _ _ _ => True

/-- The outcome of a call: if it says `Ok`, one entry for exactly what was asked has been
handed over behind those still queued, and it never says so of what no entry can express. -/
structure Faithful (ring : Ring) (request : Request) (asked : UInt64 × UInt64)
    (outcome : Ring × Except Anyhow Unit) : Prop where
  covers : outcome.2 = .ok () → ∃ e, outcome.1.handed = ring.handed ++ ring.queue ++ [e] ∧
    coverage e.sqe.opcode = some (.at asked.1.toNat, asked.2.toNat)
  refuses : ¬ Representable request → ∃ message, outcome.2 = .error message

section Casts

variable {len offset : UInt64} {marker : Bool} {i a : ℤ}

theorem startOf_eq_at_iff : startOf marker i = .at a ↔ marker = false ∧ i = a := by
  cases marker <;> simp [startOf]

theorem toUInt32_exact_iff : len.toUInt32.toNat = len.toNat ↔ len.toNat < 2 ^ 32 := by
  rw [UInt64.toNat_toUInt32, Nat.mod_eq_iff_lt (by omega)]

theorem start_exact_iff :
    startOf (offset == -1) offset.toNat = .at offset.toNat ↔ offset.toNat < 2 ^ 64 - 1 := by
  have hlt := offset.toNat_lt
  have hmarker : (-1 : UInt64).toNat = 2 ^ 64 - 1 := rfl
  rw [startOf_eq_at_iff, beq_eq_false_iff_ne, ne_eq, ← UInt64.toNat_inj, hmarker]
  omega

theorem splice_start_exact_iff :
    startOf (offset.toInt64 == -1) offset.toInt64.toInt = .at offset.toNat ↔
      offset.toNat < 2 ^ 63 := by
  have hmarker : (-1 : Int64).toInt = -1 := rfl
  rw [startOf_eq_at_iff, beq_eq_false_iff_ne, ne_eq, ← Int64.toInt_inj, hmarker]
  have hcast := toInt_toInt64 offset
  split_ifs at hcast <;> omega

end Casts

section Calls

variable {request : Request} {asked : UInt64 × UInt64}

theorem coverage_opcode_iff (h : range request = some asked) :
    coverage request.opcode = some (.at asked.1.toNat, asked.2.toNat) ↔
      Representable request := by
  cases request with
  | read fd buf len offset | write fd buf len offset =>
    obtain rfl := Option.some.inj h
    simp only [coverage, Request.opcode, Option.some.injEq, Prod.mk.injEq, start_exact_iff,
      toUInt32_exact_iff, Representable, and_comm]
  | accept => cases h
  | sendfile outFd inFd offset len =>
    obtain rfl := Option.some.inj h
    simp only [coverage, Request.opcode, Option.some.injEq, Prod.mk.injEq, splice_start_exact_iff,
      toUInt32_exact_iff, Representable, and_comm]

/-- A call is true to what it was asked exactly when the ring or the kernel refuses it, or the
entry has room for it: there is no check of its own. -/
theorem faithful_iff (ring : Ring) (call : ℕ) (request : Request) (asked : UInt64 × UInt64)
    (h : range request = some asked) (pushed submitted : Except OsError Unit) :
    Faithful ring request asked (request.submit ring call pushed submitted) ↔
      (pushed = .ok () → submitted = .ok () → Representable request) := by
  obtain ⟨what, heq⟩ := request.submit_eq ring call
  rw [heq]
  cases pushed with
  | error err =>
    exact ⟨fun _ hpushed => (nomatch hpushed), fun _ => ⟨nofun, fun _ => ⟨_, rfl⟩⟩⟩
  | ok =>
    cases submitted with
    | error err =>
      exact ⟨fun _ _ hsubmitted => (nomatch hsubmitted), fun _ => ⟨nofun, fun _ => ⟨_, rfl⟩⟩⟩
    | ok =>
      constructor
      · intro hfaithful _ _
        by_contra hnot
        obtain ⟨message, hmessage⟩ := hfaithful.refuses hnot
        cases hmessage
      · intro hrepresentable
        have hfits := hrepresentable rfl rfl
        have hcoverage := (coverage_opcode_iff h).mpr hfits
        refine ⟨fun _ => ?_, fun hnot => (hnot hfits).elim⟩
        exact ⟨_, (List.append_assoc ring.handed ring.queue _).symm, hcoverage⟩

theorem small_read_faithful :
    Faithful .empty (.read 5 0x7000 4096 512) (512, 4096)
      (Request.submit .empty 0 (.read 5 0x7000 4096 512) (.ok ()) (.ok ())) :=
  (faithful_iff .empty 0 (.read 5 0x7000 4096 512) (512, 4096) rfl (.ok ()) (.ok ())).mpr
    fun _ _ => ⟨by decide, by decide⟩

/-- A write of 4 GiB is queued as one of no bytes, a read at the last offset as one from the
current position, and so is a splice. -/
theorem large_calls_changed :
    (∃ e, (Request.submit .empty 0 (.write 5 0x7000 0x100000000 0) (.ok ()) (.ok ())).1.handed =
        [e] ∧ coverage e.sqe.opcode = some (.at 0, 0)) ∧
    (∃ e, (Request.submit .empty 0 (.sendfile 5 6 0xFFFFFFFFFFFFFFFF 10) (.ok ())
        (.ok ())).1.handed = [e] ∧ coverage e.sqe.opcode = some (.current, 10)) ∧
    ¬ Faithful .empty (.write 5 0x7000 0x100000000 0) (0, 0x100000000)
      (Request.submit .empty 0 (.write 5 0x7000 0x100000000 0) (.ok ()) (.ok ())) ∧
    ¬ Faithful .empty (.read 5 0x7000 10 0xFFFFFFFFFFFFFFFF) (0xFFFFFFFFFFFFFFFF, 10)
      (Request.submit .empty 0 (.read 5 0x7000 10 0xFFFFFFFFFFFFFFFF) (.ok ()) (.ok ())) ∧
    ¬ Faithful .empty (.sendfile 5 6 0xFFFFFFFFFFFFFFFF 10) (0xFFFFFFFFFFFFFFFF, 10)
      (Request.submit .empty 0 (.sendfile 5 6 0xFFFFFFFFFFFFFFFF 10) (.ok ()) (.ok ())) := by
  refine ⟨⟨_, rfl, by decide⟩, ⟨_, rfl, by decide⟩, fun h => ?_, fun h => ?_, fun h => ?_⟩
  · have hnot : ¬ Representable (.write 5 0x7000 0x100000000 0) := fun h => absurd h.1 (by decide)
    obtain ⟨message, hmessage⟩ := h.refuses hnot
    cases hmessage
  · have hnot : ¬ Representable (.read 5 0x7000 10 0xFFFFFFFFFFFFFFFF) :=
      fun h => absurd h.2 (by decide)
    obtain ⟨message, hmessage⟩ := h.refuses hnot
    cases hmessage
  · have hnot : ¬ Representable (.sendfile 5 6 0xFFFFFFFFFFFFFFFF 10) :=
      fun h => absurd h.2 (by decide)
    obtain ⟨message, hmessage⟩ := h.refuses hnot
    cases hmessage

end Calls

end KernelEngine.Encoding
