import KernelEngine.File.Sendfile
import KernelEngine.Rust.Number
import Mathlib.Algebra.Group.Nat.Defs

namespace KernelEngine.Transfer
open Rust File Net Runs

/-- A call that ends the loop before the end of the file. -/
def EndsShort (n : UInt64) : SendIo → Prop
  | .sendfile _ _ _ (.ok sent) => sent = 0
  | .sendfile _ _ _ (.error _) => 0 < n
  | .metadata _ => False

/-- What has happened when `send_entire_file` is at a place behind the calls `t`. -/
def Faithful (data before after : Bytes) (t : List SendIo) : SendPoint → Prop
  | .metadata => after = before
  | .sending fileSize totalSent offset => fileSize.toNat = data.length ∧ totalSent < fileSize ∧
      (fileSize - totalSent).toNat = fileSize.toNat - totalSent.toNat ∧
      offset.toInt = totalSent.toNat ∧ after = before ++ data.take totalSent.toNat
  | .returned (.ok n) => n.toNat ≤ data.length ∧ after = before ++ data.take n.toNat ∧
      (n.toNat < data.length → ∃ io ∈ t.getLast?, EndsShort n io)
  | .returned (.error _) => after = before

/-- Every call but the first sends at least one byte or is the last. -/
def callsLeft (data : Bytes) : SendPoint → ℕ
  | .metadata => data.length + 1
  | .sending _ totalSent _ => data.length - totalSent.toNat
  | .returned _ => 0

section Loop

variable {outFd : RawFd} {data before after : Bytes} {t : List SendIo} {io : SendIo}
  {fileSize totalSent n : UInt64} {offset : Int64} {p q : SendPoint × (RawFd → Bytes)}

theorem toNat_min_le (a b : UInt64) : (min a b).toNat ≤ a.toNat := by
  rw [← UInt64.le_iff_toNat_le]
  exact Std.min_le_left

theorem toNat_sub (h : totalSent < fileSize) :
    (fileSize - totalSent).toNat = fileSize.toNat - totalSent.toNat :=
  UInt64.toNat_sub_of_le _ _ (UInt64.le_of_lt h)

theorem offset_eq (hdata : data.length < 2 ^ 63) (hoffset : offset.toInt = totalSent.toNat)
    (hle : totalSent.toNat ≤ data.length) : offset = totalSent.toInt64 := by
  rw [← Int64.toInt_inj, hoffset, toInt_toInt64_of_lt (by omega)]

/-- Wherever the head of the loop is reached with the books in order, it goes on or
returns the size of the file. -/
theorem faithful_loopHead (hdata : data.length < 2 ^ 63) (hsize : fileSize.toNat = data.length)
    (hle : totalSent.toNat ≤ data.length) (hoffset : offset = totalSent.toInt64)
    (hafter : after = before ++ data.take totalSent.toNat) :
    Faithful data before after t (SendPoint.loopHead fileSize totalSent offset) := by
  unfold SendPoint.loopHead
  split_ifs with hlt
  · exact ⟨hsize, hlt, toNat_sub hlt, hoffset ▸ toInt_toInt64_of_lt (by omega), hafter⟩
  · have hend : data.length ≤ totalSent.toNat := by
      rw [UInt64.lt_iff_toNat_lt] at hlt
      omega
    exact ⟨hle, hafter, fun hshort => absurd hend (by omega)⟩

theorem callsLeft_loopHead (hsize : fileSize.toNat = data.length) :
    callsLeft data (SendPoint.loopHead fileSize totalSent offset) =
      data.length - totalSent.toNat := by
  unfold SendPoint.loopHead
  split_ifs with hlt
  · rfl
  · rw [UInt64.lt_iff_toNat_lt] at hlt
    rw [callsLeft]
    omega

/-- One call keeps the books and comes closer to the end. -/
theorem faithful_step (hdata : data.length < 2 ^ 63)
    (h : Faithful data before (p.2 outFd) t p.1)
    (hs : sendEntireFile outFd data p io = some q) :
    Faithful data before (q.2 outFd) (t ++ [io]) q.1 ∧
      callsLeft data q.1 + 1 ≤ callsLeft data p.1 := by
  obtain ⟨p, out⟩ := p
  obtain ⟨q, out'⟩ := q
  obtain ⟨hp, hout⟩ := sync_iff.mp hs
  dsimp only at h hp hout ⊢
  cases SendPoint.step_cases hp with
  | opened fileSize =>
    obtain ⟨hlen, hout⟩ := Option.ite_none_right_eq_some.mp hout
    obtain rfl := Option.some.inj hout
    rw [callsLeft_loopHead hlen]
    refine ⟨faithful_loopHead hdata hlen (Nat.zero_le _) rfl ?_, ?_⟩
    · simpa [Faithful] using h
    · simp [callsLeft]
  | noMetadata e msg =>
    obtain rfl := Option.some.inj hout
    exact ⟨h, by simp [callsLeft]⟩
  | @sent fileSize totalSent offset n hn =>
    obtain ⟨hsize, hlt, hsub, hoffset, hafter⟩ := h
    obtain ⟨⟨-, hcount, hrest⟩, hout⟩ := Option.ite_none_right_eq_some.mp hout
    obtain rfl := Option.some.inj hout
    have hpos : n.toNat ≠ 0 := fun h0 => hn (UInt64.toNat_inj.mp h0)
    have hle : n.toNat ≤ fileSize.toNat - totalSent.toNat := by
      rw [← hsub]
      exact Nat.le_trans (UInt64.le_iff_toNat_le.mp hcount) (toNat_min_le _ _)
    rw [UInt64.lt_iff_toNat_lt] at hlt
    have hadd : (totalSent + n).toNat = totalSent.toNat + n.toNat := by
      rw [UInt64.toNat_add, Nat.mod_eq_of_lt (by omega)]
    rw [callsLeft_loopHead hsize, callsLeft, hadd]
    refine ⟨faithful_loopHead hdata hsize (by omega) ?_ ?_, by omega⟩
    · rw [offset_eq hdata hoffset (by omega), ← UInt64.toInt64_add]
    · rw [Function.update_self, hafter, hoffset, hadd, List.append_assoc, List.take_add,
        Int.toNat_natCast]
  | @stopped fileSize totalSent offset =>
    obtain ⟨hsize, hlt, -, -, hafter⟩ := h
    obtain ⟨-, hout⟩ := Option.ite_none_right_eq_some.mp hout
    obtain rfl := Option.some.inj hout
    rw [UInt64.lt_iff_toNat_lt] at hlt
    refine ⟨⟨by omega, ?_, fun _ => ⟨_, List.getLast?_concat, rfl⟩⟩, ?_⟩
    · rw [Function.update_self, hafter, UInt64.toNat_zero, List.take_zero, List.append_nil]
    · rw [callsLeft, callsLeft]
      omega
  | @failedPartway fileSize totalSent offset e hpos =>
    obtain ⟨hsize, hlt, -, -, hafter⟩ := h
    obtain rfl := Option.some.inj hout
    rw [UInt64.lt_iff_toNat_lt] at hlt
    refine ⟨⟨by omega, hafter, fun _ => ⟨_, List.getLast?_concat, hpos⟩⟩, ?_⟩
    rw [callsLeft, callsLeft]
    omega
  | @failed fileSize totalSent offset e msg hzero =>
    obtain ⟨hsize, hlt, -, -, hafter⟩ := h
    obtain rfl := Option.some.inj hout
    rw [UInt64.lt_iff_toNat_lt] at hlt
    refine ⟨?_, ?_⟩
    · rw [hafter, hzero, UInt64.toNat_zero, List.take_zero, List.append_nil]
      rfl
    · rw [callsLeft, callsLeft]
      omega

end Loop

/-- Behind any results of its calls `send_entire_file` has sent a prefix of the file, as
it reports. It goes on whatever a call returns, and makes at most one call for each
byte and one for the metadata. -/
theorem sends_first_bytes (outFd : RawFd) (data : Bytes) (hdata : data.length < 2 ^ 63)
    (out : RawFd → Bytes) (t : List SendIo) (p : SendPoint × (RawFd → Bytes))
    (hrun : run (sendEntireFile outFd data) (.metadata, out) t = some p) :
    Faithful data (out outFd) (p.2 outFd) t p.1 ∧ t.length ≤ data.length + 1 ∧
      (p.1.call outFd = none ↔ ∃ result, p.1 = .returned result) ∧
      ∀ ask ∈ p.1.call outFd, ∀ result, (transfer data p.2 (ask result)).isSome →
        (sendEntireFile outFd data p (ask result)).isSome := by
  have hbooks : Faithful data (out outFd) (p.2 outFd) t p.1 ∧
      t.length + callsLeft data p.1 ≤ data.length + 1 := by
    refine run_history_of_step (I := fun t p =>
      Faithful data (out outFd) (p.2 outFd) t p.1 ∧
        t.length + callsLeft data p.1 ≤ data.length + 1) ?_ ?_ hrun
    · intro t p io q h hs
      obtain ⟨hfaithful, hcalls⟩ := faithful_step hdata h.1 hs
      refine ⟨hfaithful, ?_⟩
      have hlen := h.2
      rw [List.length_append, List.length_singleton]
      omega
    · exact ⟨rfl, by simp [callsLeft]⟩
  refine ⟨hbooks.1, by omega, SendPoint.call_eq_none_iff, fun ask hask result hresult => ?_⟩
  obtain ⟨out', hout⟩ := Option.isSome_iff_exists.mp hresult
  obtain ⟨p', hp⟩ := Option.isSome_iff_exists.mp (SendPoint.step_call hask result)
  exact Option.isSome_iff_exists.mpr ⟨(p', out'), sync_iff.mpr ⟨hp, hout⟩⟩

/-- A short send, and then nothing more. -/
def shortSend : List SendIo :=
  [.metadata (.ok 5), .sendfile 7 0 5 (.ok 2), .sendfile 7 2 3 (.ok 0)]

theorem shortSend_prefix : ∃ out : RawFd → Bytes,
    run (sendEntireFile 7 [10, 20, 30, 40, 50]) (.metadata, fun _ => []) shortSend =
      some (.returned (.ok 2), out) ∧ out 7 = [10, 20] :=
  ⟨_, rfl,
    (sends_first_bytes 7 [10, 20, 30, 40, 50] (by decide) (fun _ => []) shortSend _ rfl).1.2.1⟩

end KernelEngine.Transfer
