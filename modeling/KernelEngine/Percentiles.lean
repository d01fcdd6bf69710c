import KernelEngine.Bench.RunBench
import KernelEngine.Lib.Ranks

namespace KernelEngine.Percentiles
open Rust Bench BenchmarkStats Ranks

/-- The place of a percentile is one of the samples, and the value found there has no more
samples below it, and more at or below it, than the place says. -/
structure Selects (latencies : List Duration) (q : ℕ) (v : Duration) : Prop where
  place : latencies.length * q / 100 < latencies.length
  below : latencies.countP (· < v) ≤ latencies.length * q / 100
  upTo : latencies.length * q / 100 < latencies.countP (· ≤ v)

section Places

variable {latencies : List Duration} {q : ℕ}

/-- A percentile below the hundredth stands at its place, which is in bounds. -/
theorem percentile_eq (checks : Bool) (hq : q < 100) (hne : latencies ≠ [])
    (hfits : latencies.length * q < 2 ^ 64) : ∃ v, percentile checks latencies q = some v ∧
      latencies[latencies.length * q / 100]? = some v := by
  have hpos := List.length_pos_iff.mpr hne
  have hplace : latencies.length * q / 100 < latencies.length := by
    rw [Nat.div_lt_iff_lt_mul (by omega)]
    exact Nat.mul_lt_mul_of_pos_left hq hpos
  rw [percentile, usize_of_lt hfits, Option.bind_some, List.getElem?_eq_getElem hplace]
  exact ⟨_, rfl, rfl⟩

theorem selects_of_place {v : Duration} (hq : q < 100) (hne : latencies ≠ [])
    (hv : (latencies.mergeSort (· ≤ ·))[latencies.length * q / 100]? = some v) :
    Selects latencies q v := by
  have hpos := List.length_pos_iff.mpr hne
  obtain ⟨hbelow, hupTo⟩ := rank_of_sorted (List.mergeSort_perm ..) List.sortedLE_mergeSort hv
  refine ⟨?_, hbelow, hupTo⟩
  rw [Nat.div_lt_iff_lt_mul (by omega)]
  exact Nat.mul_lt_mul_of_pos_left hq hpos

/-- The percentiles that are printed are samples of the ranks they name, in their order. -/
theorem percentiles_selected (checks : Bool) (s : BenchmarkStats) (hne : s.latencies ≠ [])
    (hfits : s.latencies.length * 99 < 2 ^ 64) : ∃ p,
      printResults checks s =
        some ({ s with latencies := s.latencies.mergeSort (· ≤ ·) }, some p) ∧
      Selects s.latencies 50 p.p50 ∧ Selects s.latencies 95 p.p95 ∧ Selects s.latencies 99 p.p99 ∧
      p.p50 ≤ p.p95 ∧ p.p95 ≤ p.p99 := by
  have hlength : (s.latencies.mergeSort (· ≤ ·)).length = s.latencies.length :=
    List.length_mergeSort ..
  have hsortedNe : s.latencies.mergeSort (· ≤ ·) ≠ [] := by
    rw [← List.length_pos_iff, hlength]
    exact List.length_pos_iff.mpr hne
  have hfound (q : ℕ) (hq : q ≤ 99) : ∃ v,
      percentile checks (s.latencies.mergeSort (· ≤ ·)) q = some v ∧
      (s.latencies.mergeSort (· ≤ ·))[s.latencies.length * q / 100]? = some v := by
    have hle := Nat.mul_le_mul_left s.latencies.length hq
    have hlt : (s.latencies.mergeSort (· ≤ ·)).length * q < 2 ^ 64 := by
      rw [hlength]
      exact Nat.lt_of_le_of_lt hle hfits
    have heq := percentile_eq checks (Nat.lt_succ_of_le hq) hsortedNe hlt
    rwa [hlength] at heq
  obtain ⟨p50, h50, hv50⟩ := hfound 50 (by omega)
  obtain ⟨p95, h95, hv95⟩ := hfound 95 (by omega)
  obtain ⟨p99, h99, hv99⟩ := hfound 99 (by omega)
  refine ⟨⟨p50, p95, p99⟩, ?_, selects_of_place (by omega) hne hv50,
    selects_of_place (by omega) hne hv95, selects_of_place (by omega) hne hv99, ?_, ?_⟩
  · rw [printResults, if_neg hsortedNe, h50, h95, h99]
    rfl
  · exact le_of_place_le List.sortedLE_mergeSort hv50 hv95 (by omega)
  · exact le_of_place_le List.sortedLE_mergeSort hv95 hv99 (by omega)

theorem three_samples_selected : ∃ p,
    printResults true ⟨3, 300, [7, 2, 7]⟩ =
        some (⟨3, 300, [7, 2, 7].mergeSort (· ≤ ·)⟩, some p) ∧
      Selects [7, 2, 7] 50 p.p50 ∧ Selects [7, 2, 7] 95 p.p95 ∧ Selects [7, 2, 7] 99 p.p99 ∧
      p.p50 ≤ p.p95 ∧ p.p95 ≤ p.p99 :=
  percentiles_selected true ⟨3, 300, [7, 2, 7]⟩ (by decide) (by decide)

end Places

end KernelEngine.Percentiles
