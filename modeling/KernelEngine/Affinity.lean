import KernelEngine.Sys.CpuAffinity
import Mathlib.Tactic.IntervalCases

namespace KernelEngine.Affinity
open Rust File Sys

/-- Whether a mask has a CPU in it. Positions beyond its end have none. -/
def enabled (cpuMask : List Bool) (cpu : ℕ) : Bool := cpuMask.getD cpu false

/-- The mask enables the first CPUs, and none behind the first it leaves out. -/
def Gapless (cpuMask : List Bool) : Prop := ∃ k, ∀ cpu, enabled cpuMask cpu = true ↔ cpu < k

/-- What is read back is `Ok` of a mask with the same CPUs. -/
def ReadBack (cpuMask : List Bool) (result : Except Anyhow (List Bool)) : Prop :=
  ∃ read, result = .ok read ∧ ∀ cpu, enabled read cpu = enabled cpuMask cpu

/-- Half of the CPUs. -/
def coresPerNode (numCpus : UInt64) : ℕ := numCpus.toNat / 2

/-- The first core of a node, in exact arithmetic. -/
def startCore (numCpus node : UInt64) : ℕ := node.toNat * coresPerNode numCpus

/-- The node has cores, and all of them exist. -/
def Present (numCpus node : UInt64) : Prop :=
  1 ≤ coresPerNode numCpus ∧ startCore numCpus node + coresPerNode numCpus ≤ numCpus.toNat

/-- The kernel takes the cores below the count, and no others. -/
def below (numCpus : UInt64) (core : ℕ) : Bool := decide (core < numCpus.toNat)

/-- A node that is present is pinned to its first core, and any other is refused with an
error. -/
structure Pinned (numCpus node : UInt64) (mask : Finset ℕ)
    (outcome : Finset ℕ × Except Fault Unit) : Prop where
  present : Present numCpus node → outcome = ({startCore numCpus node}, .ok ())
  absent : ¬ Present numCpus node → ∃ message, outcome = (mask, .error (.error message))

/-- The product and the sum are computed as they are: there is no panic and no wrapping. -/
def Exact (checks : Bool) (numCpus node : UInt64) : Prop :=
  usize checks (startCore numCpus node) = some (startCore numCpus node) ∧
    usize checks (startCore numCpus node + coresPerNode numCpus) =
      some (startCore numCpus node + coresPerNode numCpus)

/-- The third node of an odd number of CPUs: it starts at the last one. -/
def Straddles (numCpus node : UInt64) : Prop :=
  node.toNat = 2 ∧ numCpus.toNat % 2 = 1 ∧ 5 ≤ numCpus.toNat

/-- The wrapped first core is no CPU, or the end of the node wraps below it. -/
def WrapsAway (numCpus node : UInt64) : Prop :=
  numCpus.toNat ≤ startCore numCpus node % 2 ^ 64 ∨
    2 ^ 64 ≤ startCore numCpus node % 2 ^ 64 + coresPerNode numCpus

section Masks

variable {cpuMask : List Bool} {cpu numCpus : ℕ} {set : Finset ℕ}

/-- The loop over the entries of a mask adds the positions of the true ones. -/
theorem mem_foldl_entries (entries : List (Bool × ℕ)) (set : Finset ℕ) :
    cpu ∈ entries.foldl (fun set entry => if entry.1 then insert entry.2 set else set) set ↔
      cpu ∈ set ∨ (true, cpu) ∈ entries := by
  induction entries generalizing set with
  | nil => simp
  | cons entry entries ih =>
    obtain ⟨enabled, position⟩ := entry
    rw [List.foldl_cons, ih]
    cases enabled with
    | false => simp
    | true => simp [or_assoc, or_left_comm]

theorem mem_cpuSet : cpu ∈ cpuSet cpuMask ↔ enabled cpuMask cpu = true := by
  have hposition : cpuMask[cpu]? = some true ↔ enabled cpuMask cpu = true := by
    rw [enabled, List.getD_eq_getElem?_getD]
    cases cpuMask[cpu]? <;> simp
  rw [cpuSet, mem_foldl_entries, List.mem_zipIdx_iff_getElem?, ← hposition]
  simp

theorem enabled_range :
    enabled ((List.range numCpus).map fun cpu => decide (cpu ∈ set)) cpu = true ↔
      cpu < numCpus ∧ cpu ∈ set := by
  simp only [enabled, List.getD_eq_getElem?_getD, List.getElem?_map]
  by_cases h : cpu < numCpus
  · simp [h]
  · simp [h]

/-- As many positions are looked at as there are CPUs in the mask: this finds them all exactly
when they come first. -/
theorem scan_finds_all_iff : (∀ cpu ∈ cpuSet cpuMask, cpu < (cpuSet cpuMask).card) ↔
    Gapless cpuMask := by
  constructor
  · intro h
    have hrange : cpuSet cpuMask = Finset.range (cpuSet cpuMask).card :=
      Finset.eq_of_subset_of_card_le (fun cpu hcpu => Finset.mem_range.mpr (h cpu hcpu))
        (Finset.card_range _).le
    refine ⟨(cpuSet cpuMask).card, fun cpu => ?_⟩
    rw [← mem_cpuSet]
    exact (Finset.ext_iff.mp hrange cpu).trans Finset.mem_range
  · rintro ⟨k, hk⟩ cpu hcpu
    have hrange : cpuSet cpuMask = Finset.range k := by
      ext cpu
      rw [mem_cpuSet, hk, Finset.mem_range]
    rw [hrange, Finset.card_range]
    exact (hk cpu).mp (mem_cpuSet.mp hcpu)

theorem setAffinityMask_ok {mask stored : Finset ℕ} {answer : Except OsError Unit}
    (h : setAffinityMask mask cpuMask answer = (stored, .ok ())) : stored = cpuSet cpuMask := by
  unfold setAffinityMask at h
  split_ifs at h
  · cases h
  · cases answer <;> cases h
    rfl

/-- A mask that was set is read back exactly when its CPUs come first. -/
theorem read_back_iff (mask stored : Finset ℕ) (cpuMask : List Bool) (answer : Except OsError Unit)
    (hset : setAffinityMask mask cpuMask answer = (stored, .ok ())) (numCpus : ℕ)
    (hcount : numCpus = stored.card) :
    ReadBack cpuMask (getAffinityMask (.ok stored) numCpus) ↔ Gapless cpuMask := by
  obtain rfl := setAffinityMask_ok hset
  subst hcount
  rw [← scan_finds_all_iff]
  constructor
  · rintro ⟨read, hread, hsame⟩ cpu hcpu
    obtain rfl := Except.ok.inj hread
    have hfound := (hsame cpu).trans (mem_cpuSet.mp hcpu)
    exact (enabled_range.mp hfound).1
  · intro h
    refine ⟨_, rfl, fun cpu => ?_⟩
    rw [Bool.eq_iff_iff, enabled_range, mem_cpuSet]
    exact ⟨fun hboth => hboth.2, fun hcpu => ⟨h cpu (mem_cpuSet.mpr hcpu), hcpu⟩⟩

theorem two_cpus_read_back :
    setAffinityMask {0, 1, 2, 3} [true, true, false] (.ok ()) = ({0, 1}, .ok ()) ∧
    ReadBack [true, true, false] (getAffinityMask (.ok {0, 1}) 2) := by
  have hset : setAffinityMask {0, 1, 2, 3} [true, true, false] (.ok ()) = ({0, 1}, .ok ()) := by
    decide
  have hgapless : Gapless [true, true, false] := by
    refine ⟨2, fun cpu => ?_⟩
    match cpu with
    | 0 | 1 | 2 => decide
    | cpu + 3 => simp [enabled]
  exact ⟨hset, (read_back_iff _ _ _ _ hset 2 rfl).mpr hgapless⟩

/-- CPU 1 alone is set, and the scan stops behind CPU 0. -/
theorem second_cpu_lost :
    setAffinityMask {0, 1} [false, true] (.ok ()) = ({1}, .ok ()) ∧
    getAffinityMask (.ok {1}) (Finset.card {1}) = .ok [false] ∧
    ¬ ReadBack [false, true] (getAffinityMask (.ok {1}) (Finset.card {1})) := by
  refine ⟨by decide, by decide, ?_⟩
  rintro ⟨read, hread, hsame⟩
  obtain rfl := Except.ok.inj hread
  exact absurd (hsame 1) (by decide)

end Masks

section Nodes

variable {checks : Bool} {numCpus node : UInt64} {mask : Finset ℕ} {cores : List ℕ} {core : ℕ}

theorem exact_iff :
    Exact checks numCpus node ↔ startCore numCpus node + coresPerNode numCpus < 2 ^ 64 := by
  rw [Exact, usize_eq_self_iff, usize_eq_self_iff]
  omega

theorem numaCores_exact (h : startCore numCpus node + coresPerNode numCpus < 2 ^ 64) :
    numaCores checks numCpus node =
      some (List.range' (startCore numCpus node) (coresPerNode numCpus)) := by
  have hstart : usize checks (node.toNat * (numCpus.toNat / 2)) = some (startCore numCpus node) :=
    usize_of_lt (Nat.lt_of_le_of_lt (Nat.le_add_right _ _) h)
  have hend : usize checks (startCore numCpus node + numCpus.toNat / 2) = _ := usize_of_lt h
  simp only [numaCores, hstart, hend, Option.bind_eq_bind, Option.bind_some,
    Nat.add_sub_cancel_left]
  rfl

theorem numaCores_panics (h : 2 ^ 64 ≤ startCore numCpus node + coresPerNode numCpus) :
    numaCores true numCpus node = none := by
  obtain hlt | hge := Nat.lt_or_ge (startCore numCpus node) (2 ^ 64)
  · have hstart : usize true (node.toNat * (numCpus.toNat / 2)) =
        some (startCore numCpus node) := usize_of_lt hlt
    have hend : usize true (startCore numCpus node + numCpus.toNat / 2) = none := usize_panics h
    simp only [numaCores, hstart, hend, Option.bind_eq_bind, Option.bind_some, Option.bind_none]
  · have hstart : usize true (node.toNat * (numCpus.toNat / 2)) = none := usize_panics hge
    simp only [numaCores, hstart, Option.bind_eq_bind, Option.bind_none]

/-- Without checks the first core wraps, and where the end wraps behind it nothing is left. -/
theorem numaCores_wraps (numCpus node : UInt64) : numaCores false numCpus node =
    some (if startCore numCpus node % 2 ^ 64 + coresPerNode numCpus < 2 ^ 64 then
      List.range' (startCore numCpus node % 2 ^ 64) (coresPerNode numCpus) else []) := by
  have hstart := usize_wraps (node.toNat * (numCpus.toNat / 2))
  have hcount := numCpus.toNat_lt
  simp only [numaCores, hstart, usize_wraps, Option.bind_eq_bind, Option.bind_some]
  change some (List.range' (startCore numCpus node % 2 ^ 64)
    ((startCore numCpus node % 2 ^ 64 + coresPerNode numCpus) % 2 ^ 64 -
      startCore numCpus node % 2 ^ 64)) = _
  have hhalf : coresPerNode numCpus < 2 ^ 64 := Nat.lt_of_le_of_lt (Nat.div_le_self _ _) hcount
  split_ifs with h
  · rw [Nat.mod_eq_of_lt h, Nat.add_sub_cancel_left]
  · have hempty : (startCore numCpus node % 2 ^ 64 + coresPerNode numCpus) % 2 ^ 64 -
        startCore numCpus node % 2 ^ 64 = 0 := by omega
    rw [hempty]
    rfl

theorem pinned_of_cores (h : numaCores checks numCpus node = some (core :: cores))
    (hcore : core < numCpus.toNat) :
    pinToNumaNode checks numCpus node mask (below numCpus) = ({core}, .ok ()) := by
  simp only [pinToNumaNode, h, pinToCores, below, decide_eq_true hcore]
  rfl

theorem refused_of_cores (h : numaCores checks numCpus node = some (core :: cores))
    (hcore : numCpus.toNat ≤ core) :
    ∃ message, pinToNumaNode checks numCpus node mask (below numCpus) =
      (mask, .error (.error message)) := by
  simp only [pinToNumaNode, h, pinToCores, below, decide_eq_false (Nat.not_lt.mpr hcore)]
  exact ⟨_, rfl⟩

theorem refused_of_no_cores (mask : Finset ℕ) (h : numaCores checks numCpus node = some []) :
    ∃ message, pinToNumaNode checks numCpus node mask (below numCpus) =
      (mask, .error (.error message)) := by
  simp only [pinToNumaNode, h]
  exact ⟨_, rfl⟩

/-- The outcome of the cores found: all that matters is whether there are any, and whether
the first is one of the CPUs. -/
theorem outcome_range (start : ℕ)
    (h : numaCores checks numCpus node = some (List.range' start (coresPerNode numCpus))) :
    (1 ≤ coresPerNode numCpus ∧ start < numCpus.toNat ∧
      pinToNumaNode checks numCpus node mask (below numCpus) = ({start}, .ok ())) ∨
    (coresPerNode numCpus = 0 ∨ numCpus.toNat ≤ start) ∧
      ∃ message, pinToNumaNode checks numCpus node mask (below numCpus) =
        (mask, .error (.error message)) := by
  cases hcount : coresPerNode numCpus with
  | zero =>
    rw [hcount] at h
    exact Or.inr ⟨Or.inl rfl, refused_of_no_cores mask h⟩
  | succ k =>
    rw [hcount, List.range'_succ] at h
    obtain hlt | hge := Nat.lt_or_ge start numCpus.toNat
    · exact Or.inl ⟨by omega, hlt, pinned_of_cores h hlt⟩
    · exact Or.inr ⟨Or.inr hge, refused_of_cores h hge⟩

/-- Only the third node of an odd number of CPUs begins below the count and ends past it. -/
theorem straddles_iff : Straddles numCpus node ↔ startCore numCpus node < numCpus.toNat ∧
    numCpus.toNat < startCore numCpus node + coresPerNode numCpus := by
  rw [Straddles, startCore, coresPerNode]
  obtain hsmall | hlarge := Nat.lt_or_ge node.toNat 3
  · interval_cases node.toNat <;> omega
  · have hmul : 3 * (numCpus.toNat / 2) ≤ node.toNat * (numCpus.toNat / 2) :=
      Nat.mul_le_mul_right _ hlarge
    omega

theorem not_present_of_wrap (h : 2 ^ 64 ≤ startCore numCpus node + coresPerNode numCpus) :
    ¬ Present numCpus node ∧ 1 ≤ coresPerNode numCpus := by
  have hlt := numCpus.toNat_lt
  refine ⟨fun hpresent => ?_, Nat.one_le_iff_ne_zero.mpr fun hzero => ?_⟩
  · have hle := hpresent.2
    omega
  · rw [startCore, hzero] at h
    omega

theorem pinned_exact_iff (h : startCore numCpus node + coresPerNode numCpus < 2 ^ 64) :
    Pinned numCpus node mask (pinToNumaNode checks numCpus node mask (below numCpus)) ↔
      ¬ Straddles numCpus node := by
  rw [straddles_iff]
  obtain ⟨hcount, hlt, hok⟩ | ⟨hnone, message, herr⟩ := outcome_range _ (numaCores_exact h)
  · rw [hok]
    constructor
    · intro hpinned hstraddles
      have hnot : ¬ Present numCpus node := fun hpresent =>
        absurd hpresent.2 (Nat.not_le.mpr hstraddles.2)
      obtain ⟨message, hmessage⟩ := hpinned.absent hnot
      cases hmessage
    · intro hnot
      refine ⟨fun _ => rfl, fun habsent => (habsent ⟨hcount, ?_⟩).elim⟩
      omega
  · rw [herr]
    have hnot : ¬ Present numCpus node := by
      rintro ⟨hcount, hle⟩
      omega
    constructor
    · intro _ hstraddles
      omega
    · exact fun _ => ⟨fun hpresent => (hnot hpresent).elim, fun _ => ⟨message, rfl⟩⟩

theorem pinned_wrapped_iff (h : 2 ^ 64 ≤ startCore numCpus node + coresPerNode numCpus) :
    Pinned numCpus node mask (pinToNumaNode false numCpus node mask (below numCpus)) ↔
      WrapsAway numCpus node := by
  obtain ⟨hnot, hcount⟩ := not_present_of_wrap h
  have hcores := numaCores_wraps numCpus node
  rw [WrapsAway]
  split_ifs at hcores with hend
  · obtain ⟨-, hlt, hok⟩ | ⟨hnone, message, herr⟩ := outcome_range _ hcores
    · rw [hok]
      constructor
      · intro hpinned
        obtain ⟨message, hmessage⟩ := hpinned.absent hnot
        cases hmessage
      · intro haway
        omega
    · rw [herr]
      constructor
      · intro _
        omega
      · exact fun _ => ⟨fun hpresent => (hnot hpresent).elim, fun _ => ⟨message, rfl⟩⟩
  · obtain ⟨message, herr⟩ := refused_of_no_cores mask hcores
    rw [herr]
    refine ⟨fun _ => Or.inr (Nat.not_lt.mp hend), fun _ => ?_⟩
    exact ⟨fun hpresent => (hnot hpresent).elim, fun _ => ⟨message, rfl⟩⟩

theorem not_pinned_of_panic (h : 2 ^ 64 ≤ startCore numCpus node + coresPerNode numCpus) :
    ¬ Pinned numCpus node mask (pinToNumaNode true numCpus node mask (below numCpus)) := by
  intro hpinned
  obtain ⟨message, hmessage⟩ := hpinned.absent (not_present_of_wrap h).1
  rw [pinToNumaNode, numaCores_panics h] at hmessage
  cases hmessage

/-- Every node is answered as it should be, in exact arithmetic, unless its cores end past
64 bits or it straddles the end of the CPUs. Where the arithmetic is not exact the answer is
still right only without overflow checks, and when the wrapped node happens to be no node. -/
theorem numa_node_iff (checks : Bool) (numCpus node : UInt64) (mask : Finset ℕ) :
    (Pinned numCpus node mask (pinToNumaNode checks numCpus node mask (below numCpus)) ∧
        Exact checks numCpus node ↔
      startCore numCpus node + coresPerNode numCpus < 2 ^ 64 ∧ ¬ Straddles numCpus node) ∧
    (Pinned numCpus node mask (pinToNumaNode checks numCpus node mask (below numCpus)) ↔
      if startCore numCpus node + coresPerNode numCpus < 2 ^ 64 then ¬ Straddles numCpus node
      else checks = false ∧ WrapsAway numCpus node) := by
  rw [exact_iff]
  obtain hlt | hge := Nat.lt_or_ge (startCore numCpus node + coresPerNode numCpus) (2 ^ 64)
  · rw [pinned_exact_iff hlt, if_pos hlt]
    exact ⟨and_comm, Iff.rfl⟩
  · rw [if_neg (Nat.not_lt.mpr hge)]
    refine ⟨by omega, ?_⟩
    cases checks with
    | false => rw [pinned_wrapped_iff hge, and_iff_right rfl]
    | true => simp [not_pinned_of_panic hge]

/-- Of five CPUs core 4 is pinned for a node that would need core 5 as well; without checks a
node near the end of `usize` is pinned to core 0, and with them it panics. -/
theorem absent_nodes_pinned :
    (pinToNumaNode true 5 2 {7} (below 5) = ({4}, .ok ()) ∧
      ¬ Pinned 5 2 {7} (pinToNumaNode true 5 2 {7} (below 5))) ∧
    (pinToNumaNode false 4 0x8000000000000000 {7} (below 4) = ({0}, .ok ()) ∧
      ¬ Pinned 4 0x8000000000000000 {7}
        (pinToNumaNode false 4 0x8000000000000000 {7} (below 4))) ∧
    pinToNumaNode true 4 0x8000000000000000 {7} (below 4) = ({7}, .error .panicked) := by
  have hfive : pinToNumaNode true 5 2 {7} (below 5) = ({4}, .ok ()) := by decide
  have hwrapped : pinToNumaNode false 4 0x8000000000000000 {7} (below 4) = ({0}, .ok ()) := by
    decide
  refine ⟨⟨hfive, fun h => ?_⟩, ⟨hwrapped, fun h => ?_⟩, by decide⟩
  · rw [hfive] at h
    obtain ⟨message, hmessage⟩ := h.absent fun hpresent => absurd hpresent.2 (by decide)
    cases (Prod.mk.inj hmessage).2
  · rw [hwrapped] at h
    obtain ⟨message, hmessage⟩ := h.absent fun hpresent => absurd hpresent.2 (by decide)
    cases (Prod.mk.inj hmessage).2

end Nodes

end KernelEngine.Affinity
