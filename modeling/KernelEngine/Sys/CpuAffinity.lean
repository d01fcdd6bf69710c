import KernelEngine.File.Mmap
import KernelEngine.Rust.Number
import Mathlib.Data.Finset.Card

namespace KernelEngine.Sys
open Rust File

/-- `pin_to_cores`, given the affinity mask of the calling thread and whether the kernel
accepts the new one: the mask behind the call, and its result. -/
def pinToCores (mask : Finset ℕ) (cores : List ℕ) (accepted : Bool) :
    Finset ℕ × Except Anyhow Unit :=
  match cores with
  | [] => (mask, .error "No cores specified".toList)
  -- the first core only
  | core :: _ =>
    if accepted then ({core}, .ok ())
    else (mask, .error ("Failed to set CPU affinity to core ".toList ++ decimal core))

/-- The cores of a node, or a panic: `start_core..end_core` is empty when the end is not past
the start. -/
def numaCores (checks : Bool) (numCpus node : UInt64) : Option (List ℕ) := do
  let coresPerNode := numCpus.toNat / 2
  let startCore ← usize checks (node.toNat * coresPerNode)
  let endCore ← usize checks (startCore + coresPerNode)
  return List.range' startCore (endCore - startCore)

/-- `pin_to_numa_node`, with overflow checks or without, given which cores the kernel accepts:
the mask behind the call, and its result. -/
def pinToNumaNode (checks : Bool) (numCpus node : UInt64) (mask : Finset ℕ) (accepts : ℕ → Bool) :
    Finset ℕ × Except Fault Unit :=
  match numaCores checks numCpus node with
  | none => (mask, .error .panicked)
  | some [] => (mask, .error (.error ("No cores available for NUMA node ".toList ++
      decimal node.toNat)))
  | some (core :: _) =>
    let (pinned, result) := pinToCores mask [core] (accepts core)
    (pinned, result.mapError .error)

/-- The `cpu_set_t` of a mask, filled by the loop over its entries. -/
def cpuSet (cpuMask : List Bool) : Finset ℕ :=
  cpuMask.zipIdx.foldl (fun set entry => if entry.1 then insert entry.2 set else set) ∅

/-- `set_affinity_mask`, given the answer of `sched_setaffinity`: the mask behind the call, and
its result. -/
def setAffinityMask (mask : Finset ℕ) (cpuMask : List Bool) (answer : Except OsError Unit) :
    Finset ℕ × Except Anyhow Unit :=
  if 1024 < cpuMask.length then (mask, .error "CPU mask too large".toList)
  else match answer with
    | .error err => (mask, .error ("sched_setaffinity failed: ".toList ++ err))
    | .ok _ => (cpuSet cpuMask, .ok ())

/-- `get_affinity_mask`, given what `sched_getaffinity` reads and what `num_cpus::get` counts. -/
def getAffinityMask (read : Except OsError (Finset ℕ)) (numCpus : ℕ) : Except Anyhow (List Bool) :=
  match read with
  | .error err => .error ("sched_getaffinity failed: ".toList ++ err)
  | .ok set => .ok ((List.range numCpus).map fun cpu => decide (cpu ∈ set))

end KernelEngine.Sys
