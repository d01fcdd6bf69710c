import KernelEngine.Lib.Runs
import KernelEngine.Net.Epoll
import Mathlib.Logic.Function.Basic

namespace KernelEngine.File
open Rust Net Runs

/-- `send_file`, given the result of `sendfile`. -/
def sendFile (sent : Except OsError UInt64) : Except Anyhow UInt64 :=
  match sent with
  | .ok n => .ok n
  | .error e => .error ("sendfile failed: ".toList ++ e)

/-- The calls `send_entire_file` makes, each with its result. `sendfile` gets the
address of a copy of the offset. -/
inductive SendIo where
  | metadata (len : Except OsError UInt64)
  | sendfile (outFd : RawFd) (offset : Int64) (count : UInt64) (sent : Except OsError UInt64)

/-- The places of `send_entire_file` between two such calls. -/
inductive SendPoint where
  | metadata
  | sending (fileSize totalSent : UInt64) (offset : Int64)
  | returned (result : Except Anyhow UInt64)

namespace SendPoint

/-- The most one call is asked to send. -/
def chunk : UInt64 := 1024 * 1024 * 1024

/-- What the next call is asked to send. The subtraction is the one of `usize`. -/
def toSend (fileSize totalSent : UInt64) : UInt64 := min (fileSize - totalSent) chunk

/-- The head of the `while` loop. -/
def loopHead (fileSize totalSent : UInt64) (offset : Int64) : SendPoint :=
  if totalSent < fileSize then .sending fileSize totalSent offset else .returned (.ok totalSent)

/-- The call made at a place, awaiting its result. -/
def call (outFd : RawFd) : SendPoint → Option (Except OsError UInt64 → SendIo)
  | .metadata => some .metadata
  | .sending fileSize totalSent offset =>
    some (.sendfile outFd offset (toSend fileSize totalSent))
  | .returned _ => none

/-- What `send_entire_file` does with the result of the call it is at. -/
def step (outFd : RawFd) : SendPoint → SendIo → Option SendPoint
  | .metadata, .metadata len =>
    some (match len with
      | .ok fileSize => loopHead fileSize 0 0
      | .error e => .returned (.error ("Failed to get file metadata: ".toList ++ e)))
  | .sending fileSize totalSent offset, .sendfile fd off count sent =>
    if fd = outFd ∧ off = offset ∧ count = toSend fileSize totalSent then
      some (match sendFile sent with
        | .ok n =>
          if n = 0 then .returned (.ok totalSent)
          else loopHead fileSize (totalSent + n) (offset + n.toInt64)
        | .error e => if totalSent > 0 then .returned (.ok totalSent) else .returned (.error e))
    else none
  | _, _ => none

/-- Everything one step can do. -/
inductive Step (outFd : RawFd) : SendPoint → SendIo → SendPoint → Prop
  | opened (fileSize : UInt64) :
      Step outFd .metadata (.metadata (.ok fileSize)) (loopHead fileSize 0 0)
  | noMetadata (e : OsError) (msg : Anyhow) :
      Step outFd .metadata (.metadata (.error e)) (.returned (.error msg))
  | sent {fileSize totalSent : UInt64} {offset : Int64} (n : UInt64) (hn : n ≠ 0) :
      Step outFd (.sending fileSize totalSent offset)
        (.sendfile outFd offset (toSend fileSize totalSent) (.ok n))
        (loopHead fileSize (totalSent + n) (offset + n.toInt64))
  | stopped {fileSize totalSent : UInt64} {offset : Int64} :
      Step outFd (.sending fileSize totalSent offset)
        (.sendfile outFd offset (toSend fileSize totalSent) (.ok 0)) (.returned (.ok totalSent))
  | failedPartway {fileSize totalSent : UInt64} {offset : Int64} (e : OsError)
      (hpos : 0 < totalSent) : Step outFd (.sending fileSize totalSent offset)
        (.sendfile outFd offset (toSend fileSize totalSent) (.error e)) (.returned (.ok totalSent))
  | failed {fileSize totalSent : UInt64} {offset : Int64} (e : OsError) (msg : Anyhow)
      (hzero : totalSent = 0) : Step outFd (.sending fileSize totalSent offset)
        (.sendfile outFd offset (toSend fileSize totalSent) (.error e)) (.returned (.error msg))

theorem step_cases {outFd : RawFd} {p p' : SendPoint} {io : SendIo}
    (h : step outFd p io = some p') : Step outFd p io p' := by
  unfold step at h
  split at h
  case h_1 len =>
    obtain rfl := Option.some.inj h
    cases len with
    | ok fileSize => exact .opened fileSize
    | error e => exact .noMetadata e _
  case h_2 fileSize totalSent offset fd off count sent =>
    obtain ⟨⟨rfl, rfl, rfl⟩, hs⟩ := Option.ite_none_right_eq_some.mp h
    obtain rfl := Option.some.inj hs
    cases sent with
    | ok n =>
      by_cases hn : n = 0
      · subst hn
        exact .stopped
      · simp only [sendFile, if_neg hn]
        exact .sent n hn
    | error e =>
      by_cases hpos : totalSent > 0
      · simp only [sendFile, if_pos hpos]
        exact .failedPartway e hpos
      · simp only [sendFile, if_neg hpos]
        exact .failed e _ (UInt64.le_zero_iff.mp (UInt64.not_lt.mp hpos))
  case h_3 => cases h

theorem step_call {outFd : RawFd} {p : SendPoint} {ask : Except OsError UInt64 → SendIo}
    (h : call outFd p = some ask) (result : Except OsError UInt64) :
    (step outFd p (ask result)).isSome := by
  cases p with
  | metadata =>
    obtain rfl := Option.some.inj h
    rfl
  | sending fileSize totalSent offset =>
    obtain rfl := Option.some.inj h
    simp only [step, and_self, if_true, Option.isSome_some]
  | returned => cases h

theorem call_eq_none_iff {outFd : RawFd} {p : SendPoint} :
    call outFd p = none ↔ ∃ result, p = .returned result := by
  cases p <;> simp [call]

end SendPoint

/-- `sendfile` on a regular file whose size does not change: it fails and sends nothing,
or sends the bytes from the offset on, at most as many as asked for and not past the
end. -/
def transfer (data : Bytes) (out : RawFd → Bytes) : SendIo → Option (RawFd → Bytes)
  | .metadata (.ok len) => if len.toNat = data.length then some out else none
  | .sendfile fd offset count (.ok n) =>
    let rest := data.drop offset.toInt.toNat
    if 0 ≤ offset.toInt ∧ n ≤ count ∧ n.toNat ≤ rest.length then
      some (Function.update out fd (out fd ++ rest.take n.toNat))
    else none
  | _ => some out

/-- `send_entire_file` on a file with these contents. -/
def sendEntireFile (outFd : RawFd) (data : Bytes) :
    SendPoint × (RawFd → Bytes) → SendIo → Option (SendPoint × (RawFd → Bytes)) :=
  sync (SendPoint.step outFd) (transfer data)

end KernelEngine.File
