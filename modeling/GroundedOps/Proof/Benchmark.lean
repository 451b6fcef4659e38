import GroundedOps.Lib.Discount
import GroundedOps.Spec.Benchmark

/-!
# The range of the retrieval metrics

* `dcg_eq_gain`, `ideal_eq_best`: the two sums of nDCG are discounted gains.
* `recall_range`, `reciprocalRank_range`: two of the metrics are in range for every ranking.
* `metricsHold_iff`: **all metrics are in range under every discount, and nDCG is 1 for the ideal
  rankings alone, exactly when relevant sources are not repeated** (`Unrepeated`).
* `report_range`: the averages of a benchmark.
-/

namespace GroundedOps.Benchmark

variable {discount : RankDiscount} {retrieved relevant : List String} {k n rank : ℕ}

/-- The hits of a ranking. -/
def hits (ranked relevant : List String) : List Bool := ranked.map fun id => decide (id ∈ relevant)

/-- The number of ranks that an ideal ranking fills. -/
def idealRanks (relevant : List String) (k : ℕ) : ℕ := min k relevant.dedup.length

/-- The first `min(k, #relevant)` retrieved ids are distinct relevant ids. -/
structure IdealPrefix (retrieved relevant : List String) (k : ℕ) : Prop where
  filled : idealRanks relevant k ≤ retrieved.length
  all_relevant : ∀ id ∈ retrieved.take (idealRanks relevant k), id ∈ relevant
  distinct : (retrieved.take (idealRanks relevant k)).Nodup

/-- **The metrics are in range, and nDCG tells the ideal rankings.** -/
structure MetricsHold (discount : RankDiscount) (retrieved relevant : List String) (k : ℕ) : Prop where
  recallAtK : 0 ≤ (metrics discount retrieved relevant k).recallAtK ∧
    (metrics discount retrieved relevant k).recallAtK ≤ 1
  reciprocalRank : 0 ≤ (metrics discount retrieved relevant k).reciprocalRank ∧
    (metrics discount retrieved relevant k).reciprocalRank ≤ 1
  ndcgAtK : 0 ≤ (metrics discount retrieved relevant k).ndcgAtK ∧
    (metrics discount retrieved relevant k).ndcgAtK ≤ 1
  perfect : (metrics discount retrieved relevant k).ndcgAtK = 1 ↔ IdealPrefix retrieved relevant k

/-- Relevant sources are not repeated: the first `k` ids have no more relevant ones than distinct
ids could be, and if all ranks of an ideal ranking are filled with relevant ids, these differ. -/
structure Unrepeated (retrieved relevant : List String) (k : ℕ) : Prop where
  count : (retrieved.take k).countP (· ∈ relevant) ≤ idealRanks relevant k
  front : idealRanks relevant k ≤ retrieved.length →
    (∀ id ∈ retrieved.take (idealRanks relevant k), id ∈ relevant) →
      (retrieved.take (idealRanks relevant k)).Nodup

/-! ## The two sums -/

theorem dcg_eq_gain (ranked : List String) :
    (((ranked.zipIdx rank).filter fun item => item.1 ∈ relevant.dedup).map
      fun item => discount.value item.2).sum = Discount.gain discount.value rank (hits ranked relevant) := by
  induction ranked generalizing rank with
  | nil => rfl
  | cons id ranked ih =>
    have hgain : Discount.gain discount.value rank (hits (id :: ranked) relevant) =
        (if decide (id ∈ relevant) = true then discount.value rank else 0) +
          Discount.gain discount.value (rank + 1) (hits ranked relevant) := rfl
    rw [hgain, ← ih, List.zipIdx_cons, List.filter_cons]
    by_cases hid : id ∈ relevant
    · simp [hid]
    · simp [hid]

theorem ideal_eq_best :
    ((List.range' rank n).map discount.value).sum = Discount.best discount.value rank n := by
  induction n generalizing rank with
  | zero => rfl
  | succ n ih =>
    rw [List.range'_succ, List.map_cons, List.sum_cons, ih]
    rfl

theorem count_hits (ranked : List String) :
    (hits ranked relevant).count true = ranked.countP (· ∈ relevant) := by
  unfold hits
  rw [List.count, List.countP_map]
  refine List.countP_congr fun id _ => ?_
  simp

/-- The first `n` ranks are hits. -/
theorem take_hits (hn : n ≤ k) :
    (hits (retrieved.take k) relevant).take n = List.replicate n true ↔
      n ≤ retrieved.length ∧ ∀ id ∈ retrieved.take n, id ∈ relevant := by
  have htake : (hits (retrieved.take k) relevant).take n = hits (retrieved.take n) relevant := by
    unfold hits
    rw [← List.map_take, List.take_take, min_eq_left hn]
  rw [htake, List.eq_replicate_iff]
  unfold hits
  rw [List.length_map, List.length_take, List.forall_mem_map]
  constructor
  · rintro ⟨hlength, hall⟩
    exact ⟨by omega, fun id hid => of_decide_eq_true (hall id hid)⟩
  · rintro ⟨hlength, hall⟩
    exact ⟨by omega, fun id hid => decide_eq_true (hall id hid)⟩

section Metrics

variable (hrelevant : relevant ≠ [])
include hrelevant

theorem dedup_length_pos : 0 < relevant.dedup.length := by
  obtain ⟨id, hid⟩ := List.exists_mem_of_ne_nil _ hrelevant
  exact List.length_pos_of_mem (List.mem_dedup.2 hid)

theorem idealRanks_pos (hk : 0 < k) : 0 < idealRanks relevant k :=
  lt_min hk (dedup_length_pos hrelevant)

/-- The metrics where there is a relevant source. -/
theorem metrics_eq : metrics discount retrieved relevant k =
    { recallAtK := (relevant.dedup.filter (· ∈ retrieved.take k)).length / relevant.dedup.length
      reciprocalRank :=
        match ((retrieved.take k).zipIdx 1).find? fun item => item.1 ∈ relevant.dedup with
        | some item => 1 / item.2
        | none => 0
      ndcgAtK := Discount.gain discount.value 1 (hits (retrieved.take k) relevant) /
        Discount.best discount.value 1 (idealRanks relevant k) } := by
  have hne : relevant.dedup ≠ [] := List.ne_nil_of_length_pos (dedup_length_pos hrelevant)
  unfold metrics
  dsimp only
  rw [if_neg hne, dcg_eq_gain, ideal_eq_best]
  rfl

theorem metrics_ndcg : (metrics discount retrieved relevant k).ndcgAtK =
    Discount.gain discount.value 1 (hits (retrieved.take k) relevant) /
      Discount.best discount.value 1 (idealRanks relevant k) := by
  rw [metrics_eq hrelevant]

/-! ## Recall and reciprocal rank -/

theorem recall_range : 0 ≤ (metrics discount retrieved relevant k).recallAtK ∧
    (metrics discount retrieved relevant k).recallAtK ≤ 1 := by
  have hpos : (0 : ℚ) < relevant.dedup.length := Nat.cast_pos.2 (dedup_length_pos hrelevant)
  rw [metrics_eq hrelevant]
  dsimp only
  refine ⟨by positivity, ?_⟩
  rw [div_le_one hpos]
  exact Nat.cast_le.2 (List.length_filter_le _ _)

theorem reciprocalRank_range : 0 ≤ (metrics discount retrieved relevant k).reciprocalRank ∧
    (metrics discount retrieved relevant k).reciprocalRank ≤ 1 := by
  rw [metrics_eq hrelevant]
  dsimp only
  split
  · rename_i item hfind
    -- ranks start at 1
    have hrank : 1 ≤ item.2 := (List.mem_zipIdx (List.mem_of_find?_eq_some hfind)).1
    have hone : (1 : ℚ) ≤ item.2 := by exact_mod_cast hrank
    exact ⟨by positivity, by rw [div_le_one (by linarith)]; exact hone⟩
  · exact ⟨le_rfl, zero_le_one⟩

/-! ## nDCG -/

variable (hk : 0 < k)
include hk

theorem ideal_pos : 0 < Discount.best discount.value 1 (idealRanks relevant k) :=
  Discount.best_pos discount.pos (idealRanks_pos hrelevant hk)

/-- Without repeats the metrics are in range under each discount. -/
theorem metricsHold_of_unrepeated (h : Unrepeated retrieved relevant k) :
    MetricsHold discount retrieved relevant k := by
  have hideal : 0 < Discount.best discount.value 1 (idealRanks relevant k) := ideal_pos hrelevant hk
  have hcount : (hits (retrieved.take k) relevant).count true ≤ idealRanks relevant k := by
    rw [count_hits]
    exact h.count
  have hranks : idealRanks relevant k ≤ k := min_le_left _ _
  refine ⟨recall_range hrelevant, reciprocalRank_range hrelevant, ?_, ?_⟩
  · rw [metrics_ndcg hrelevant, div_le_one hideal]
    exact ⟨div_nonneg (Discount.gain_nonneg discount.pos) hideal.le,
      Discount.gain_le_best discount.decreasing discount.pos hcount⟩
  · rw [metrics_ndcg hrelevant, div_eq_one_iff_eq hideal.ne',
      Discount.gain_eq_best_iff discount.decreasing discount.pos hcount, take_hits hranks]
    constructor
    · rintro ⟨hfilled, hall⟩
      exact ⟨hfilled, hall, h.front hfilled hall⟩
    · intro hfront
      exact ⟨hfront.filled, hfront.all_relevant⟩

end Metrics

/-- No relevant id occurs twice among the first `k`. -/
theorem unrepeated_of_nodup (h : ((retrieved.take k).filter (· ∈ relevant)).Nodup) :
    Unrepeated retrieved relevant k := by
  have hranks : idealRanks relevant k ≤ k := min_le_left _ _
  refine ⟨?_, fun _ hall => ?_⟩
  · rw [List.countP_eq_length_filter]
    refine le_min ?_ ?_
    · exact (List.length_filter_le _ _).trans (List.length_take_le _ _)
    · refine (List.subperm_of_subset h fun id hid => ?_).length_le
      exact List.mem_dedup.2 (of_decide_eq_true (List.mem_filter.1 hid).2)
  · have hsame : (retrieved.take (idealRanks relevant k)).filter (· ∈ relevant) =
        retrieved.take (idealRanks relevant k) :=
      List.filter_eq_self.2 fun id hid => decide_eq_true (hall id hid)
    rw [← hsame]
    have hsub : (retrieved.take (idealRanks relevant k)).Sublist (retrieved.take k) := by
      rw [← min_eq_left hranks, ← List.take_take]
      exact List.take_sublist _ _
    exact h.sublist (hsub.filter _)

/-! ## A benchmark -/

section Report

variable {candidate : RetrievalCandidate} {query : GoldenQuery} {queries : List GoldenQuery}
  {config : BenchmarkConfig} {configHash : BenchmarkConfig → String} {datasetHash : String}
  {report : BenchmarkReport}

theorem average_range {values : List ℚ} (h : ∀ value ∈ values, 0 ≤ value ∧ value ≤ 1)
    (hne : values ≠ []) : 0 ≤ values.sum / values.length ∧ values.sum / values.length ≤ 1 := by
  have hpos : (0 : ℚ) < values.length := Nat.cast_pos.2 (List.length_pos_of_ne_nil hne)
  have hsum : values.sum ≤ values.length • (1 : ℚ) :=
    List.sum_le_card_nsmul _ _ fun value hvalue => (h value hvalue).2
  refine ⟨div_nonneg (List.sum_nonneg fun value hvalue => (h value hvalue).1) hpos.le, ?_⟩
  rw [div_le_one hpos]
  simpa using hsum

/-- Relevant sources are not repeated in what a candidate finds for a query. -/
def Unrepeating (candidate : RetrievalCandidate) (k : ℕ) (query : GoldenQuery) : Prop :=
  ∀ result, candidate query.question k = some result →
    Unrepeated (result.sourceIds.take k) query.relevantSourceIds k

theorem queryReport_range (hrelevant : query.relevantSourceIds ≠ []) (hk : 0 < k)
    (h : Unrepeating candidate k query) :
    (0 ≤ (queryReport discount candidate k query).recallAtK ∧
        (queryReport discount candidate k query).recallAtK ≤ 1) ∧
      (0 ≤ (queryReport discount candidate k query).reciprocalRank ∧
        (queryReport discount candidate k query).reciprocalRank ≤ 1) ∧
      0 ≤ (queryReport discount candidate k query).ndcgAtK ∧
        (queryReport discount candidate k query).ndcgAtK ≤ 1 := by
  unfold queryReport
  split
  · rename_i result hresult
    have hhold : MetricsHold discount (result.sourceIds.take k) query.relevantSourceIds k :=
      metricsHold_of_unrepeated hrelevant hk (h result hresult)
    exact ⟨hhold.recallAtK, hhold.reciprocalRank, hhold.ndcgAtK⟩
  · exact ⟨⟨le_rfl, zero_le_one⟩, ⟨le_rfl, zero_le_one⟩, le_rfl, zero_le_one⟩

/-- **The averages of a benchmark are in range if no ranking repeats relevant sources.** -/
theorem report_range
    (h : runBenchmark discount configHash queries candidate config datasetHash = .ok report)
    (hrelevant : ∀ query ∈ queries, query.relevantSourceIds ≠ [])
    (hunrepeating : ∀ query ∈ queries, Unrepeating candidate config.k query) :
    (0 ≤ report.recallAtK ∧ report.recallAtK ≤ 1) ∧ (0 ≤ report.mrr ∧ report.mrr ≤ 1) ∧
      0 ≤ report.ndcgAtK ∧ report.ndcgAtK ≤ 1 := by
  unfold runBenchmark at h
  split at h
  · cases h
  · rename_i hne
    split at h
    · cases h
    · rename_i hk
      cases h
      have hreports : queries.map (queryReport discount candidate config.k) ≠ [] := by
        intro hnil
        exact hne (List.map_eq_nil_iff.1 hnil)
      -- an average of values in range is in range, whichever field it is of
      have hrange : ∀ field : QueryReport → ℚ,
          (∀ query ∈ queries, 0 ≤ field (queryReport discount candidate config.k query) ∧
            field (queryReport discount candidate config.k query) ≤ 1) →
          0 ≤ ((queries.map (queryReport discount candidate config.k)).map field).sum /
              (queries.map (queryReport discount candidate config.k)).length ∧
            ((queries.map (queryReport discount candidate config.k)).map field).sum /
              (queries.map (queryReport discount candidate config.k)).length ≤ 1 := by
        intro field hfield
        have hvalues : ∀ value ∈ (queries.map (queryReport discount candidate config.k)).map field,
            0 ≤ value ∧ value ≤ 1 := by
          intro value hvalue
          rw [List.map_map] at hvalue
          obtain ⟨query, hquery, rfl⟩ := List.mem_map.1 hvalue
          exact hfield query hquery
        have haverage := average_range hvalues fun hnil => hreports (List.map_eq_nil_iff.1 hnil)
        rwa [List.length_map] at haverage
      have hquery : ∀ query ∈ queries, _ := fun query hmem =>
        @queryReport_range discount config.k candidate query (hrelevant query hmem)
          (Nat.pos_of_ne_zero hk) (hunrepeating query hmem)
      exact ⟨hrange _ fun query hmem => (hquery query hmem).1,
        hrange _ fun query hmem => (hquery query hmem).2.1,
        hrange _ fun query hmem => (hquery query hmem).2.2⟩

end Report

/-! ## Repeats -/

/-- A discount that hardly falls. -/
def flatDiscount (n : ℕ) : RankDiscount where
  value rank := 1 + 1 / (((n + 1) * (rank + 1) : ℕ) : ℚ)
  pos rank := by positivity
  decreasing := by
    intro a b hab
    have hlt : (n + 1) * (a + 1) < (n + 1) * (b + 1) := Nat.mul_lt_mul_of_pos_left (by omega) (by omega)
    have hlt' : (((n + 1) * (a + 1) : ℕ) : ℚ) < (((n + 1) * (b + 1) : ℕ) : ℚ) := Nat.cast_lt.2 hlt
    have hpos : (0 : ℚ) < (((n + 1) * (a + 1) : ℕ) : ℚ) := by positivity
    exact add_lt_add_right (one_div_lt_one_div_of_lt hpos hlt') 1

/-- Under it `n` hits are worth less than `n + 1`, wherever they stand. -/
theorem flatDiscount_best : Discount.best (flatDiscount n).value rank n < n + 1 := by
  have hvalue : ∀ rank, (flatDiscount n).value rank ≤ 1 + 1 / ((n + 1 : ℕ) : ℚ) := by
    intro rank
    have hle : ((n + 1 : ℕ) : ℚ) ≤ (((n + 1) * (rank + 1) : ℕ) : ℚ) :=
      Nat.cast_le.2 (Nat.le_mul_of_pos_right _ (Nat.succ_pos rank))
    exact add_le_add_right (one_div_le_one_div_of_le (by positivity) hle) 1
  refine lt_of_le_of_lt (Discount.best_le_nsmul hvalue) ?_
  have hpos : (0 : ℚ) < ((n + 1 : ℕ) : ℚ) := by positivity
  have hfrac : (n : ℚ) * (1 / ((n + 1 : ℕ) : ℚ)) < 1 := by
    rw [mul_one_div, div_lt_one hpos]
    exact Nat.cast_lt.2 (Nat.lt_succ_self n)
  rw [nsmul_eq_mul, mul_add, mul_one]
  linarith

theorem flatDiscount_gain {hits : List Bool} :
    (hits.count true : ℚ) ≤ Discount.gain (flatDiscount n).value rank hits := by
  have hone : ∀ rank, (1 : ℚ) ≤ (flatDiscount n).value rank := by
    intro rank
    have hnonneg : (0 : ℚ) ≤ 1 / (((n + 1) * (rank + 1) : ℕ) : ℚ) := by positivity
    exact le_add_of_nonneg_right hnonneg
  have hle : hits.count true • (1 : ℚ) ≤ Discount.gain (flatDiscount n).value rank hits :=
    Discount.count_nsmul_le_gain hone
  rwa [nsmul_eq_mul, mul_one] at hle

/-- **All metrics are in range under every discount, and nDCG is 1 for the ideal rankings alone,
exactly when relevant sources are not repeated.** -/
theorem metricsHold_iff (retrieved relevant : List String) (k : ℕ) (hrelevant : relevant ≠ []) (hk : 0 < k) :
    (∀ discount, MetricsHold discount retrieved relevant k) ↔ Unrepeated retrieved relevant k := by
  refine ⟨fun h => ?_, fun h discount => metricsHold_of_unrepeated hrelevant hk h⟩
  have hideal : ∀ discount : RankDiscount, 0 < Discount.best discount.value 1 (idealRanks relevant k) :=
    fun discount => ideal_pos hrelevant hk
  have hcount : (retrieved.take k).countP (· ∈ relevant) ≤ idealRanks relevant k := by
    -- under a discount that hardly falls, one hit more is worth more than the ideal ranking
    by_contra hmore
    have hndcg := (h (flatDiscount (idealRanks relevant k))).ndcgAtK.2
    rw [metrics_ndcg hrelevant, div_le_one (hideal _)] at hndcg
    have hgain : ((hits (retrieved.take k) relevant).count true : ℚ) ≤
        Discount.gain (flatDiscount (idealRanks relevant k)).value 1 (hits (retrieved.take k) relevant) :=
      flatDiscount_gain
    have hbest : Discount.best (flatDiscount (idealRanks relevant k)).value 1 (idealRanks relevant k) <
        idealRanks relevant k + 1 := flatDiscount_best
    rw [count_hits] at hgain
    have hlt : ((retrieved.take k).countP (· ∈ relevant) : ℚ) < idealRanks relevant k + 1 := by linarith
    have hnat : (retrieved.take k).countP (· ∈ relevant) < idealRanks relevant k + 1 := by
      exact_mod_cast hlt
    omega
  refine ⟨hcount, fun hfilled hall => ?_⟩
  -- relevant ids at all ranks of an ideal ranking make nDCG 1, so they are distinct
  have hranks : idealRanks relevant k ≤ k := min_le_left _ _
  refine ((h (flatDiscount 0)).perfect.1 ?_).distinct
  rw [← count_hits] at hcount
  rw [metrics_ndcg hrelevant, div_eq_one_iff_eq (hideal _).ne',
    Discount.gain_eq_best_iff (flatDiscount 0).decreasing (flatDiscount 0).pos hcount,
    take_hits hranks]
  exact ⟨hfilled, hall⟩

/-- A ranking that finds two of three relevant sources within the cutoff. -/
theorem metricsHold_iff_distinct :
    Unrepeated ["c", "x", "a", "b"] ["a", "b", "c"] 3 ∧
      ∀ discount, MetricsHold discount ["c", "x", "a", "b"] ["a", "b", "c"] 3 := by
  have hdistinct : ((["c", "x", "a", "b"].take 3).filter (· ∈ ["a", "b", "c"])).Nodup := by decide
  have hunrepeated : Unrepeated ["c", "x", "a", "b"] ["a", "b", "c"] 3 :=
    unrepeated_of_nodup hdistinct
  refine ⟨hunrepeated, ?_⟩
  exact (metricsHold_iff ["c", "x", "a", "b"] ["a", "b", "c"] 3 (List.cons_ne_nil _ _)
    (by decide)).2 hunrepeated

/-- Two chunks of the one relevant source in front: nDCG is over 1, whatever the discount. -/
theorem repeated_source_out_of_range : ¬∃ discount, MetricsHold discount ["a", "a"] ["a"] 2 := by
  rintro ⟨discount, h⟩
  have hndcg := h.ndcgAtK.2
  have hideal : 0 < Discount.best discount.value 1 (idealRanks ["a"] 2) :=
    ideal_pos (List.cons_ne_nil _ _) Nat.two_pos
  rw [metrics_ndcg (List.cons_ne_nil _ _), div_le_one hideal] at hndcg
  have hgain : Discount.gain discount.value 1 (hits (["a", "a"].take 2) ["a"]) =
      discount.value 1 + (discount.value 2 + 0) := rfl
  have hbest : Discount.best discount.value 1 (idealRanks ["a"] 2) = discount.value 1 + 0 := rfl
  have hpos := discount.pos 2
  rw [hgain, hbest] at hndcg
  linarith

end GroundedOps.Benchmark
